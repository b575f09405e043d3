import Mathlib.Logic.Function.Basic
import Mathlib.Tactic.Common

namespace Directory

variable {κ ι : Type*}

/-- What becomes of an operation on a name. -/
inductive Result where
  | done
  | missing
  | failed
  deriving DecidableEq, Repr

/-- The directory without a name, where it can be removed and is there. -/
def unlink [DecidableEq κ] (fails : Bool) (name : κ) (dir : κ → Option ι) : Result × (κ → Option ι) :=
  if fails then (.failed, dir)
  else
    match dir name with
    | none => (.missing, dir)
    | some _ => (.done, Function.update dir name none)

/-- The directory with a file under another name, in place of the one that had it. Where both names
are the same file's nothing is done. -/
def rename [DecidableEq κ] [DecidableEq ι] (fails : Bool) (src dst : κ) (dir : κ → Option ι) :
    Result × (κ → Option ι) :=
  if fails then (.failed, dir)
  else
    match dir src with
    | none => (.missing, dir)
    | some file =>
      (.done, if dir dst = some file then dir
        else Function.update (Function.update dir src none) dst (some file))

/-- The files of `names m`, .., `names (k - 1)` have gone up by one name, with `names k` free before
and `names m` free now. -/
structure Shifted (names : ℕ → κ) (m k : ℕ) (dir dir' : κ → Option ι) : Prop where
  moved : ∀ i, m ≤ i → i < k → dir' (names (i + 1)) = dir (names i)
  free : dir' (names m) = none
  kept : ∀ i < m, dir' (names i) = dir (names i)
  others : ∀ p, (∀ i ≤ k, p ≠ names i) → dir' p = dir p

variable {names : ℕ → κ} {m k : ℕ} {dir dir' dir'' : κ → Option ι} {src dst : κ} {fails : Bool}

section Operations

variable [DecidableEq κ]

theorem unlink_failed (h : (unlink fails src dir).1 = .failed) : fails = true := by
  by_contra hok
  rw [unlink, if_neg hok] at h
  split at h <;> cases h

theorem unlink_eq (hok : (unlink fails src dir).1 ≠ .failed) (p : κ) :
    (unlink fails src dir).2 p = if p = src then none else dir p := by
  rw [unlink] at hok ⊢
  cases fails with
  | true => exact absurd (if_pos rfl ▸ rfl) hok
  | false =>
    cases hsrc : dir src with
    | none =>
      simp only [Bool.false_eq_true, if_false]
      split_ifs with heq
      · rw [heq, hsrc]
      · rfl
    | some file =>
      simp only [Bool.false_eq_true, if_false]
      exact Function.update_apply dir src none p

theorem unlink_some {p : κ} {file : ι} (h : (unlink fails src dir).2 p = some file) : dir p = some file := by
  by_cases hfails : (unlink fails src dir).1 = .failed
  · rwa [unlink, if_pos (unlink_failed hfails)] at h
  · rw [unlink_eq hfails] at h
    split_ifs at h
    exact h

variable [DecidableEq ι]

/-- A name that is in use after a move was so before, or is the one that was moved to. -/
theorem rename_some {p : κ} {file : ι} (h : (rename fails src dst dir).2 p = some file) :
    dir p = some file ∨ p = dst := by
  by_cases hdst : p = dst
  · exact .inr hdst
  · left
    rw [rename] at h
    split_ifs at h
    · exact h
    · split at h
      · exact h
      · split_ifs at h
        · exact h
        · simp only [Function.update_of_ne hdst, Function.update_apply] at h
          split_ifs at h
          exact h

theorem rename_of_failed (h : (rename fails src dst dir).1 = .failed) :
    fails = true ∧ (rename fails src dst dir).2 = dir := by
  cases fails with
  | true => exact ⟨rfl, by rw [rename, if_pos rfl]⟩
  | false =>
    rw [rename, if_neg (by simp)] at h
    split at h <;> cases h

/-- To a name that is free a file goes whole. -/
theorem rename_eq (hok : (rename fails src dst dir).1 ≠ .failed) (hfree : dir dst = none) (p : κ) :
    (rename fails src dst dir).2 p =
      if p = dst then dir src else if p = src then none else dir p := by
  rw [rename] at hok ⊢
  cases fails with
  | true => exact absurd (if_pos rfl ▸ rfl) hok
  | false =>
    cases hsrc : dir src with
    | none =>
      simp only [Bool.false_eq_true, if_false]
      split_ifs with hdst hsame
      · rw [hdst, hfree]
      · rw [hsame, hsrc]
      · rfl
    | some file =>
      simp only [Bool.false_eq_true, if_false, hfree, reduceCtorEq]
      rw [Function.update_apply, Function.update_apply]

end Operations

section Shift

theorem Shifted.refl (hfree : dir (names k) = none) : Shifted names k k dir dir :=
  ⟨fun _ hle hlt => absurd hlt (Nat.not_lt.mpr hle), hfree, fun _ _ => rfl, fun _ _ => rfl⟩

/-- A shift goes on below the file that was moved first. -/
theorem Shifted.of_rename [DecidableEq κ]
    (hinj : ∀ i ≤ k + 1, ∀ j ≤ k + 1, names i = names j → i = j) (hm : m ≤ k)
    (hfirst : ∀ p, dir' p =
      if p = names (k + 1) then dir (names k) else if p = names k then none else dir p)
    (hrest : Shifted names m k dir' dir'') : Shifted names m (k + 1) dir dir'' := by
  have hbelow : ∀ i < k, dir' (names i) = dir (names i) := by
    intro i hi
    rw [hfirst, if_neg, if_neg]
    · exact fun heq => absurd (hinj i (by omega) k (by omega) heq) (by omega)
    · exact fun heq => absurd (hinj i (by omega) (k + 1) (by omega) heq) (by omega)
  refine ⟨?_, hrest.free, fun i hi => (hrest.kept i hi).trans (hbelow i (by omega)), ?_⟩
  · intro i hle hlt
    rcases eq_or_ne i k with rfl | hne
    · rw [hrest.others, hfirst, if_pos rfl]
      exact fun j hj heq => absurd (hinj _ (Nat.le_refl _) j (by omega) heq) (by omega)
    · rw [hrest.moved i hle (by omega), hbelow i (by omega)]
  · intro p hp
    rw [hrest.others p fun i hi => hp i (by omega), hfirst, if_neg (hp _ (Nat.le_refl _)),
      if_neg (hp k (by omega))]

/-- No file is lost in a shift: it is where it was, or one name further. -/
theorem Shifted.exists_of_some (h : Shifted names m k dir dir') (hfree : dir (names k) = none) {p : κ}
    {file : ι} (hp : dir p = some file) :
    ∃ p', dir' p' = some file ∧ (p' = p ∨ ∃ i < k, p = names i ∧ p' = names (i + 1)) := by
  by_cases hname : ∃ i ≤ k, p = names i
  · obtain ⟨i, hi, rfl⟩ := hname
    rcases Nat.lt_or_ge i m with hlt | hle
    · exact ⟨names i, (h.kept i hlt).trans hp, .inl rfl⟩
    · have hne : i ≠ k := by
        rintro rfl
        rw [hfree] at hp
        cases hp
      exact ⟨names (i + 1), (h.moved i hle (by omega)).trans hp, .inr ⟨i, by omega, rfl, rfl⟩⟩
  · exact ⟨p, (h.others p fun i hi heq => hname ⟨i, hi, heq⟩).trans hp, .inl rfl⟩

end Shift

end Directory
