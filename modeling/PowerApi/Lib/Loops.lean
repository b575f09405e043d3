import Mathlib.Data.List.Basic
import Mathlib.Tactic.Common

namespace Loops

variable {σ α : Type*} {f : σ → α → Option σ} {s : σ}

/-- The rule of a loop that takes the elements of a list in turn, each of which it can take. Its
invariant speaks of the elements taken so far. -/
theorem foldlM_rule {l : List α} (P : List α → σ → Prop) (hinit : P [] s)
    (hstep : ∀ before a after s, l = before ++ a :: after → P before s →
      ∃ s', f s a = some s' ∧ P (before ++ [a]) s') :
    ∃ s', l.foldlM f s = some s' ∧ P l s' := by
  suffices hfrom : ∀ after before s, l = before ++ after → P before s →
      ∃ s', after.foldlM f s = some s' ∧ P l s' from hfrom l [] s rfl hinit
  intro after
  induction after with
  | nil =>
    rintro before s rfl hs
    exact ⟨s, rfl, by rwa [List.append_nil]⟩
  | cons a after ih =>
    intro before s hl hs
    obtain ⟨next, hnext, hP⟩ := hstep before a after s hl hs
    obtain ⟨s', hs', hP⟩ := ih (before ++ [a]) next (by simpa using hl) hP
    refine ⟨s', ?_, hP⟩
    rw [List.foldlM_cons, hnext]
    exact hs'

/-- The rule of a loop that counts up from 0. -/
theorem foldlM_range_rule {f : σ → ℕ → Option σ} {n : ℕ} (P : ℕ → σ → Prop) (hinit : P 0 s)
    (hstep : ∀ k s, k < n → P k s → ∃ s', f s k = some s' ∧ P (k + 1) s') :
    ∃ s', (List.range n).foldlM f s = some s' ∧ P n s' := by
  induction n with
  | zero => exact ⟨s, rfl, hinit⟩
  | succ n ih =>
    obtain ⟨middle, hmiddle, hP⟩ := ih fun k s hk => hstep k s (by omega)
    obtain ⟨s', hs', hP⟩ := hstep n middle (by omega) hP
    refine ⟨s', ?_, hP⟩
    rw [List.range_succ, List.foldlM_append, hmiddle]
    simpa using hs'

theorem foldl_range_rule {f : σ → ℕ → σ} {n : ℕ} (P : ℕ → σ → Prop) (hinit : P 0 s)
    (hstep : ∀ k s, k < n → P k s → P (k + 1) (f s k)) : P n ((List.range n).foldl f s) := by
  induction n with
  | zero => exact hinit
  | succ n ih =>
    rw [List.range_succ, List.foldl_append, List.foldl_cons, List.foldl_nil]
    exact hstep n _ (by omega) (ih fun k s hk => hstep k s (by omega))

/-- A loop with a turn that always fails. -/
theorem foldlM_range_eq_none {f : σ → ℕ → Option σ} {m n : ℕ} (hm : m < n) (hfail : ∀ s, f s m = none) :
    (List.range n).foldlM f s = none := by
  induction n with
  | zero => exact absurd hm (Nat.not_lt_zero m)
  | succ n ih =>
    rw [List.range_succ, List.foldlM_append]
    rcases Nat.lt_or_eq_of_le (Nat.le_of_lt_succ hm) with hlt | rfl
    · rw [ih hlt]
      rfl
    · cases (List.range m).foldlM f s with
      | none => rfl
      | some middle => simp [hfail]

/-- A loop none of whose turns fails. -/
theorem foldlM_eq_some_foldl {l : List α} {g : σ → α → σ} (h : ∀ s, ∀ a ∈ l, f s a = some (g s a)) :
    l.foldlM f s = some (l.foldl g s) := by
  induction l generalizing s with
  | nil => rfl
  | cons a rest ih =>
    rw [List.foldlM_cons, h s a List.mem_cons_self, List.foldl_cons]
    exact ih fun s b hb => h s b (List.mem_cons_of_mem a hb)

/-- A loop over the indices of a list that looks each element up is one over the list. -/
theorem foldlM_range_zipIdx {β : Type*} {l : List β} {f : σ → ℕ → Option σ} {g : σ → β × ℕ → σ}
    (h : ∀ s i b, l[i]? = some b → f s i = some (g s (b, i))) :
    (List.range l.length).foldlM f s = some (l.zipIdx.foldl g s) := by
  rw [List.range_eq_range', ← List.zipIdx_map_snd 0 l, List.foldlM_map]
  refine foldlM_eq_some_foldl ?_
  rintro s ⟨b, i⟩ hmem
  exact h s i b (List.mem_zipIdx_iff_getElem?.mp hmem)

end Loops
