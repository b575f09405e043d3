import PowerApi.Api.Sysfiles

namespace pwrapi

/-- A text up to its first conversion letter, or to its end, and what follows. -/
def split_specification : List Char → List Char × List Char
  | [] => ([], [])
  | c :: rest =>
    if terminator c then ([c], rest) else (c :: (split_specification rest).1, (split_specification rest).2)

theorem split_specification_length (p : List Char) : (split_specification p).2.length ≤ p.length - 1 := by
  induction p with
  | nil => exact Nat.le_refl 0
  | cons c rest ih =>
    rw [split_specification]
    split_ifs
    · exact Nat.le_refl rest.length
    · simp only [List.length_cons]
      omega

/-- The conversion specifications of a format: each of them is the text from a `%` up to the first
of the conversion letters, or to the end. -/
def specifications (format : List Char) : List (List Char) :=
  match _ : skip_to_percent format with
  | [] => []
  | c :: rest => (split_specification (c :: rest)).1 :: specifications (split_specification (c :: rest)).2
termination_by format.length
decreasing_by
  next h =>
    have hskip := (List.dropWhile_suffix (fun c : Char => decide (c ≠ '%')) (l := format)).length_le
    rw [show format.dropWhile (fun c : Char => decide (c ≠ '%')) = c :: rest from h] at hskip
    have hsplit := split_specification_length (c :: rest)
    simp only [List.length_cons] at hskip hsplit ⊢
    omega

/-- The outer loop of `fmtmatch`, which has not ended after the given number of turns where it is `none`. -/
def fmtmatch_turns : ℕ → List Char → List Char → Option Bool
  | 0, ref, str => if ref = [] ∨ str = [] then some (ref.isEmpty && str.isEmpty) else none
  | turns + 1, ref, str =>
    if ref = [] ∨ str = [] then some (ref.isEmpty && str.isEmpty)
    else
      match fmt_compare (skip_to_percent ref) (skip_to_percent str) with
      | none => some false
      | some (ref', str') => fmtmatch_turns turns ref' str'

section Specifications

variable {p q ref str : List Char}

theorem specifications_of_skip_nil (h : skip_to_percent p = []) : specifications p = [] := by
  rw [specifications]
  split
  · rfl
  · next heq =>
    rw [h] at heq
    cases heq

theorem specifications_of_skip (h : skip_to_percent p ≠ []) :
    specifications p =
      (split_specification (skip_to_percent p)).1 :: specifications (split_specification (skip_to_percent p)).2 := by
  rw [specifications]
  split
  · next heq => exact absurd heq h
  · next c rest heq => rw [heq]

/-- A conversion letter by itself is no part of a specification. -/
theorem specifications_terminator_cons {c : Char} (hc : terminator c = true) :
    specifications (c :: p) = specifications p := by
  have hskip : skip_to_percent (c :: p) = skip_to_percent p := by
    rw [skip_to_percent, List.dropWhile_cons, if_pos (by simpa using terminator_ne_percent hc)]
    rfl
  by_cases hnil : skip_to_percent p = []
  · rw [specifications_of_skip_nil hnil, specifications_of_skip_nil (hskip.trans hnil)]
  · rw [specifications_of_skip hnil, specifications_of_skip (hskip ▸ hnil), hskip]

/-- What the inner loop does: it stops at a difference, at the letter that ends the same
specification in both texts, at the end of both, or at the end of only one of them. -/
inductive Compared (p q : List Char) : Prop where
  | mismatch (hcompare : fmt_compare p q = none) (hp : p ≠ []) (hq : q ≠ [])
    (hne : (split_specification p).1 ≠ (split_specification q).1)
  | letter (c : Char) (hc : terminator c = true) (hp : p ≠ []) (hq : q ≠ [])
    (hcompare : fmt_compare p q = some (c :: (split_specification p).2, c :: (split_specification q).2))
    (heq : (split_specification p).1 = (split_specification q).1)
  | ended (hcompare : fmt_compare p q = some ([], [])) (heq : p = q)
  | one_ended (p' q' : List Char) (hcompare : fmt_compare p q = some (p', q')) (hend : p' = [] ∨ q' = [])
    (hrest : ¬(p' = [] ∧ q' = [])) (hne : (split_specification p).1 ≠ (split_specification q).1)

theorem split_specification_head (c : Char) (rest : List Char) :
    (split_specification (c :: rest)).1.head? = some c := by
  rw [split_specification]
  split_ifs
  · rfl
  · rfl

theorem split_specification_of_letter {c : Char} (hc : terminator c = true) (rest : List Char) :
    split_specification (c :: rest) = ([c], rest) := if_pos hc

theorem split_specification_of_not_letter {c : Char} (hc : terminator c = false) (rest : List Char) :
    split_specification (c :: rest) = (c :: (split_specification rest).1, (split_specification rest).2) :=
  if_neg (by rw [hc]; decide)

theorem fmt_compare_compared (p q : List Char) : Compared p q := by
  have hhead {p q : List Char} (h : p.head? ≠ q.head?) : p ≠ q := fun heq => h (congrArg List.head? heq)
  induction p generalizing q with
  | nil =>
    cases q with
    | nil => exact .ended rfl rfl
    | cons b q =>
      refine .one_ended [] (b :: q) rfl (Or.inl rfl) (by simp) (hhead ?_)
      rw [split_specification_head, split_specification]
      simp
  | cons a p ih =>
    cases q with
    | nil =>
      refine .one_ended (a :: p) [] rfl (Or.inr rfl) (by simp) (hhead ?_)
      rw [split_specification_head, split_specification]
      simp
    | cons b q =>
      by_cases hab : a = b
      · subst hab
        cases hletter : terminator a with
        | true =>
          have hcompare : fmt_compare (a :: p) (a :: q) = some (a :: p, a :: q) := by simp [fmt_compare, hletter]
          refine .letter a hletter (by simp) (by simp) ?_ ?_
          · rw [hcompare, split_specification_of_letter hletter, split_specification_of_letter hletter]
          · rw [split_specification_of_letter hletter, split_specification_of_letter hletter]
        | false =>
          have hcompare : fmt_compare (a :: p) (a :: q) = fmt_compare p q := by simp [fmt_compare, hletter]
          have hp := split_specification_of_not_letter hletter p
          have hq := split_specification_of_not_letter hletter q
          cases ih q with
          | mismatch hnext _ _ hne =>
            refine .mismatch (hcompare.trans hnext) (by simp) (by simp) ?_
            rw [hp, hq]
            exact fun heq => hne (List.cons.inj heq).2
          | letter c hc _ _ hnext heq =>
            refine .letter c hc (by simp) (by simp) ?_ ?_
            · rw [hcompare, hnext, hp, hq]
            · rw [hp, hq, heq]
          | ended hnext heq => exact .ended (hcompare.trans hnext) (by rw [heq])
          | one_ended p' q' hnext hend hrest hne =>
            refine .one_ended p' q' (hcompare.trans hnext) hend hrest ?_
            rw [hp, hq]
            exact fun heq => hne (List.cons.inj heq).2
      · refine .mismatch (if_pos hab) (by simp) (by simp) (hhead ?_)
        rw [split_specification_head, split_specification_head]
        exact fun heq => hab (Option.some.inj heq)

/-- Where one text has ended, the strings match exactly if both have. -/
theorem fmtmatch_of_ended (h : ref = [] ∨ str = []) : fmtmatch ref str = true ↔ ref = [] ∧ str = [] := by
  rw [fmtmatch, dif_pos h, Bool.and_eq_true, List.isEmpty_iff, List.isEmpty_iff]

theorem specifications_congr (h : skip_to_percent p = skip_to_percent q) : specifications p = specifications q := by
  by_cases hnil : skip_to_percent p = []
  · rw [specifications_of_skip_nil hnil, specifications_of_skip_nil (h.symm.trans hnil)]
  · rw [specifications_of_skip hnil, @specifications_of_skip q (h ▸ hnil), h]

theorem specifications_ne
    (h : (split_specification (skip_to_percent p)).1 ≠ (split_specification (skip_to_percent q)).1) :
    specifications p ≠ specifications q := by
  intro heq
  by_cases hp : skip_to_percent p = []
  · by_cases hq : skip_to_percent q = []
    · rw [hp, hq] at h
      exact h rfl
    · rw [specifications_of_skip_nil hp, specifications_of_skip hq] at heq
      cases heq
  · by_cases hq : skip_to_percent q = []
    · rw [specifications_of_skip hp, specifications_of_skip_nil hq] at heq
      cases heq
    · rw [specifications_of_skip hp, specifications_of_skip hq] at heq
      exact h (List.cons.inj heq).1

/-- Behind the same specification the rests decide. -/
theorem specifications_eq_iff {c : Char} (hc : terminator c = true) (hp : skip_to_percent p ≠ [])
    (hq : skip_to_percent q ≠ [])
    (heq : (split_specification (skip_to_percent p)).1 = (split_specification (skip_to_percent q)).1) :
    specifications p = specifications q ↔
      specifications (c :: (split_specification (skip_to_percent p)).2) =
        specifications (c :: (split_specification (skip_to_percent q)).2) := by
  rw [specifications_of_skip hp, specifications_of_skip hq, heq, specifications_terminator_cons hc,
    specifications_terminator_cons hc, List.cons.injEq, and_iff_right rfl]

/-- Two strings that are not empty match exactly if their specifications are the same. -/
theorem fmtmatch_iff_specifications (href : ref ≠ []) (hstr : str ≠ []) :
    fmtmatch ref str = true ↔ specifications ref = specifications str := by
  induction ref, str using fmtmatch.induct with
  | case1 ref str hdone => exact absurd hdone (not_or.mpr ⟨href, hstr⟩)
  | case2 ref str hne hcompare =>
    rw [fmtmatch_eq hne, hcompare, Option.elim_none]
    cases fmt_compare_compared (skip_to_percent ref) (skip_to_percent str) with
    | mismatch _ _ _ hspec => exact iff_of_false Bool.false_ne_true (specifications_ne hspec)
    | letter c hc _ _ hsome heq => cases hsome.symm.trans hcompare
    | ended hsome heq => cases hsome.symm.trans hcompare
    | one_ended p' q' hsome hend hrest hspec => cases hsome.symm.trans hcompare
  | case3 ref str hne ref' str' hcompare ih =>
    rw [fmtmatch_eq hne, hcompare, Option.elim_some]
    cases fmt_compare_compared (skip_to_percent ref) (skip_to_percent str) with
    | mismatch hnone _ _ _ => cases hnone.symm.trans hcompare
    | letter c hc hp hq hsome heq =>
      obtain ⟨rfl, rfl⟩ := Prod.mk.inj (Option.some.inj (hsome.symm.trans hcompare))
      rw [ih (by simp) (by simp), specifications_eq_iff hc hp hq heq]
    | ended hsome heq =>
      obtain ⟨rfl, rfl⟩ := Prod.mk.inj (Option.some.inj (hsome.symm.trans hcompare))
      exact iff_of_true ((fmtmatch_of_ended (Or.inl rfl)).mpr ⟨rfl, rfl⟩) (specifications_congr heq)
    | one_ended p' q' hsome hend hrest hspec =>
      obtain ⟨rfl, rfl⟩ := Prod.mk.inj (Option.some.inj (hsome.symm.trans hcompare))
      exact iff_of_false (fun h => hrest ((fmtmatch_of_ended hend).mp h)) (specifications_ne hspec)

/-- The outer loop ends after no more turns than both strings have characters. -/
theorem fmtmatch_turns_eq {turns : ℕ} (h : ref.length + str.length ≤ turns) :
    fmtmatch_turns turns ref str = some (fmtmatch ref str) := by
  induction turns generalizing ref str with
  | zero =>
    have hnil : ref = [] := List.eq_nil_of_length_eq_zero (by omega)
    rw [fmtmatch_turns, if_pos (Or.inl hnil), fmtmatch, dif_pos (Or.inl hnil)]
  | succ turns ih =>
    rw [fmtmatch_turns]
    by_cases hne : ref = [] ∨ str = []
    · rw [if_pos hne, fmtmatch, dif_pos hne]
    · rw [if_neg hne, fmtmatch_eq hne]
      cases hcompare : fmt_compare (skip_to_percent ref) (skip_to_percent str) with
      | none => rfl
      | some next =>
        have hdecreases := fmt_compare_decreases hne hcompare
        exact ih (by omega)

end Specifications

/-- The comparison of formats ends on every pair of strings, and tells for strings that are not
empty whether their specifications are the same. -/
theorem fmtmatch_same_specifications (ref str : List Char) :
    (∀ turns, ref.length + str.length ≤ turns → fmtmatch_turns turns ref str = some (fmtmatch ref str)) ∧
      (ref ≠ [] → str ≠ [] → (fmtmatch ref str = true ↔ specifications ref = specifications str)) :=
  ⟨fun _ => fmtmatch_turns_eq, fmtmatch_iff_specifications⟩

/-- Strings with an unfinished specification at their end. -/
theorem fmtmatch_same_specifications_unfinished :
    specifications ['a', '%', 'd', '/', '%', 'l'] = [['%', 'd'], ['%', 'l']] ∧
      (fmtmatch ['a', '%', 'd', '/', '%', 'l'] ['%', 'd', '%', 'l'] = true ↔
        specifications ['a', '%', 'd', '/', '%', 'l'] = specifications ['%', 'd', '%', 'l']) ∧
      fmtmatch_turns 10 ['a', '%', 'd', '/', '%', 'l'] ['%', 'd', '%', 'l'] = some true := by
  have hboth := fmtmatch_same_specifications ['a', '%', 'd', '/', '%', 'l'] ['%', 'd', '%', 'l']
  refine ⟨by decide +kernel, hboth.2 (by decide) (by decide), ?_⟩
  rw [hboth.1 10 (by decide)]
  decide +kernel

end pwrapi
