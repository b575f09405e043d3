import Mathlib.Tactic.Common

namespace Agreement

variable {α : Type*} [DecidableEq α] (bot top : α)

/-- The join of two verdicts: `bot` says nothing, and different ones conflict in `top`. -/
def agree (a b : α) : α :=
  if a = bot then b else if b = bot ∨ b = a then a else top

/-- The joint verdict of a list. -/
def agreement (xs : List α) : α :=
  xs.foldr (agree bot top) bot

variable {bot top}

@[simp] theorem bot_agree (a : α) : agree bot top bot a = a := by
  simp [agree]

@[simp] theorem agree_bot (a : α) : agree bot top a bot = a := by
  by_cases h : a = bot <;> simp [agree, h]

@[simp] theorem agree_self (a : α) : agree bot top a a = a := by
  simp [agree]

theorem agree_of_ne {a b : α} (ha : a ≠ bot) (hb : b ≠ bot) (hab : a ≠ b) :
    agree bot top a b = top := by
  simp [agree, ha, hb, hab.symm]

theorem agree_top (h : top ≠ bot) (a : α) : agree bot top a top = top := by
  by_cases ha : a = bot
  · rw [ha, bot_agree]
  · by_cases hat : a = top
    · rw [hat, agree_self]
    · exact agree_of_ne ha h hat

theorem top_agree (h : top ≠ bot) (a : α) : agree bot top top a = top := by
  by_cases ha : a = bot
  · rw [ha, agree_bot]
  · by_cases hat : top = a
    · rw [← hat, agree_self]
    · exact agree_of_ne h ha hat

theorem agree_assoc (h : top ≠ bot) (a b c : α) :
    agree bot top (agree bot top a b) c = agree bot top a (agree bot top b c) := by
  by_cases ha : a = bot
  · rw [ha, bot_agree, bot_agree]
  by_cases hb : b = bot
  · rw [hb, agree_bot, bot_agree]
  by_cases hab : a = b
  · subst hab
    rw [agree_self]
    by_cases hc : c = bot
    · rw [hc, agree_bot, agree_self]
    by_cases hac : a = c
    · rw [← hac, agree_self, agree_self]
    · rw [agree_of_ne ha hc hac, agree_top h]
  · rw [agree_of_ne ha hb hab, top_agree h]
    by_cases hc : c = bot
    · rw [hc, agree_bot, agree_of_ne ha hb hab]
    by_cases hbc : b = c
    · rw [← hbc, agree_self, agree_of_ne ha hb hab]
    · rw [agree_of_ne hb hc hbc, agree_top h]

@[simp] theorem agreement_nil : agreement bot top [] = bot := rfl

@[simp] theorem agreement_cons (x : α) (xs : List α) :
    agreement bot top (x :: xs) = agree bot top x (agreement bot top xs) := rfl

/-- The verdict of a list can be taken part by part. -/
theorem agreement_append (h : top ≠ bot) (xs ys : List α) :
    agreement bot top (xs ++ ys) =
      agree bot top (agreement bot top xs) (agreement bot top ys) := by
  induction xs with
  | nil => rw [List.nil_append, agreement_nil, bot_agree]
  | cons x xs ih => rw [List.cons_append, agreement_cons, ih, agreement_cons, agree_assoc h]

/-- A verdict is one of those it joins, or a default. -/
theorem agreement_mem (xs : List α) :
    agreement bot top xs = bot ∨ agreement bot top xs = top ∨ agreement bot top xs ∈ xs := by
  induction xs with
  | nil => exact .inl rfl
  | cons x xs ih =>
    rw [agreement_cons]
    unfold agree
    split_ifs
    · rcases ih with ih | ih | ih
      · exact .inl ih
      · exact .inr (.inl ih)
      · exact .inr (.inr (List.mem_cons_of_mem _ ih))
    · exact .inr (.inr List.mem_cons_self)
    · exact .inr (.inl rfl)

theorem agreement_eq_bot {xs : List α} (h : ∀ x ∈ xs, x = bot) : agreement bot top xs = bot := by
  induction xs with
  | nil => rfl
  | cons x xs ih =>
    rw [agreement_cons, h x List.mem_cons_self, bot_agree,
      ih fun y hy => h y (List.mem_cons_of_mem _ hy)]

theorem agreement_eq_or {xs : List α} {e : α} (h : ∀ x ∈ xs, x = bot ∨ x = e) :
    agreement bot top xs = bot ∨ agreement bot top xs = e := by
  induction xs with
  | nil => exact .inl rfl
  | cons x xs ih =>
    rw [agreement_cons]
    rcases h x List.mem_cons_self with rfl | rfl
    · rw [bot_agree]
      exact ih fun y hy => h y (List.mem_cons_of_mem _ hy)
    · rcases ih fun y hy => h y (List.mem_cons_of_mem _ hy) with ih | ih
      · exact .inr (by rw [ih, agree_bot])
      · exact .inr (by rw [ih, agree_self])

/-- No verdict is overlooked. -/
theorem agreement_of_mem (h : top ≠ bot) {xs : List α} {e : α} (he : e ∈ xs) (hne : e ≠ bot) :
    agreement bot top xs = e ∨ agreement bot top xs = top := by
  induction xs with
  | nil => exact absurd he List.not_mem_nil
  | cons x xs ih =>
    rw [agreement_cons]
    rcases List.mem_cons.mp he with rfl | he
    · unfold agree
      rw [if_neg hne]
      split_ifs
      · exact .inl rfl
      · exact .inr rfl
    · rcases ih he with ih | ih
      · rw [ih]
        unfold agree
        split_ifs with _ hx
        · exact .inl rfl
        · exact .inl (hx.resolve_left hne).symm
        · exact .inr rfl
      · exact .inr (by rw [ih, agree_top h])

/-- A verdict that leaves only silence besides it is the joint one. -/
theorem agreement_eq (h : top ≠ bot) {xs : List α} {e : α} (he : e ∈ xs) (hne : e ≠ bot)
    (hall : ∀ x ∈ xs, x = bot ∨ x = e) : agreement bot top xs = e := by
  refine (agreement_eq_or hall).resolve_left fun hbot => ?_
  rcases agreement_of_mem h he hne with h' | h'
  · exact hne (h'.symm.trans hbot)
  · exact h (h'.symm.trans hbot)

/-- Two different verdicts conflict. -/
theorem agreement_eq_top (h : top ≠ bot) {xs : List α} {d e : α} (hd : d ∈ xs) (he : e ∈ xs)
    (hdb : d ≠ bot) (heb : e ≠ bot) (hne : d ≠ e) : agreement bot top xs = top := by
  rcases agreement_of_mem h hd hdb with hd | hd
  · rcases agreement_of_mem h he heb with he | he
    · exact absurd (hd.symm.trans he) hne
    · exact he
  · exact hd

end Agreement
