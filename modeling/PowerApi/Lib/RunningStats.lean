import Mathlib.Algebra.BigOperators.Group.List.Basic
import Mathlib.Algebra.Order.BigOperators.Group.List
import Mathlib.Algebra.Order.Field.Basic
import Mathlib.Tactic.FieldSimp
import Mathlib.Tactic.Ring

namespace RunningStats

section Moments

variable {K : Type*} [Field K]

def mean (xs : List K) : K := xs.sum / xs.length

/-- The sum of the squared deviations from the mean. -/
def deviations (xs : List K) : K := (xs.map fun x => (x - mean xs) ^ 2).sum

/-- The sample variance. -/
def variance (xs : List K) : K := deviations xs / (xs.length - 1)

@[simp] theorem mean_nil : mean ([] : List K) = 0 := by simp [mean]

@[simp] theorem deviations_nil : deviations ([] : List K) = 0 := rfl

theorem sum_sub_sq (c : K) (xs : List K) :
    (xs.map fun x => (x - c) ^ 2).sum = (xs.map fun x => x ^ 2).sum - 2 * c * xs.sum + xs.length * c ^ 2 := by
  induction xs with
  | nil => simp
  | cons x rest ih =>
    simp only [List.map_cons, List.sum_cons, List.length_cons, ih, Nat.cast_add, Nat.cast_one]
    ring

section CharZero

variable [CharZero K]

theorem length_mul_mean (xs : List K) : xs.length * mean xs = xs.sum := by
  cases xs with
  | nil => simp
  | cons x rest =>
    have hlength : ((x :: rest).length : K) ≠ 0 := by
      rw [Nat.cast_ne_zero]
      exact Nat.succ_ne_zero _
    rw [mean, mul_div_cancel₀ _ hlength]

theorem deviations_eq (xs : List K) :
    deviations xs = (xs.map fun x => x ^ 2).sum - xs.length * mean xs ^ 2 := by
  rw [deviations, sum_sub_sq, ← length_mul_mean xs]
  ring

variable (xs : List K) (x : K)

theorem mean_concat : mean (xs ++ [x]) = mean xs + (x - mean xs) / (xs.length + 1) := by
  have hlength : (xs.length : K) + 1 ≠ 0 := by exact_mod_cast Nat.succ_ne_zero xs.length
  rw [mean, List.sum_append, List.sum_singleton, ← length_mul_mean xs, List.length_append,
    List.length_singleton, Nat.cast_add, Nat.cast_one, eq_comm]
  field_simp
  ring

/-- The recurrence by which one pass over the numbers is enough. -/
theorem deviations_concat :
    deviations (xs ++ [x]) = deviations xs + (x - mean (xs ++ [x])) * (x - mean xs) := by
  have hlength : (xs.length : K) + 1 ≠ 0 := by exact_mod_cast Nat.succ_ne_zero xs.length
  rw [deviations_eq, deviations_eq, mean_concat, List.map_append, List.sum_append, List.length_append,
    List.length_singleton, Nat.cast_add, Nat.cast_one]
  simp only [List.map_cons, List.map_nil, List.sum_singleton]
  field_simp
  ring

end CharZero

section Ordered

variable [LinearOrder K] [IsStrictOrderedRing K]

theorem sum_sub_sq_nonneg (c : K) (xs : List K) : 0 ≤ (xs.map fun x => (x - c) ^ 2).sum := by
  apply List.sum_nonneg
  simp only [List.mem_map]
  rintro _ ⟨x, -, rfl⟩
  exact sq_nonneg _

theorem sum_sub_sq_eq_zero_iff (c : K) (xs : List K) :
    (xs.map fun x => (x - c) ^ 2).sum = 0 ↔ ∀ x ∈ xs, x = c := by
  induction xs with
  | nil => simp
  | cons x rest ih =>
    rw [List.map_cons, List.sum_cons, add_eq_zero_iff_of_nonneg (sq_nonneg _) (sum_sub_sq_nonneg c rest), ih,
      pow_eq_zero_iff two_ne_zero, sub_eq_zero, List.forall_mem_cons]

variable {xs : List K}

theorem variance_nonneg (h : 1 ≤ xs.length) : 0 ≤ variance xs := by
  refine div_nonneg (sum_sub_sq_nonneg _ xs) ?_
  rw [sub_nonneg]
  exact_mod_cast h

theorem variance_eq_zero_iff (h : 2 ≤ xs.length) : variance xs = 0 ↔ ∀ x ∈ xs, x = mean xs := by
  have hlength : (xs.length : K) - 1 ≠ 0 := by
    rw [sub_ne_zero]
    exact_mod_cast (show xs.length ≠ 1 by omega)
  rw [variance, div_eq_zero_iff, or_iff_left hlength, deviations, sum_sub_sq_eq_zero_iff]

end Ordered

end Moments

section First

variable {α β : Type*} (r : α → α → Prop) [DecidableRel r]

/-- The better one of two tagged values, and of equally good ones the earlier. -/
def keep_first (best next : α × β) : α × β := if r next.1 best.1 then next else best

/-- No value is better than `best`, and none before it is as good. -/
def Attains (readings : List (α × β)) (best : α × β) : Prop :=
  ∃ before after, readings = before ++ best :: after ∧
    (∀ p ∈ before, r best.1 p.1) ∧ ∀ p ∈ after, ¬ r p.1 best.1

variable {r} {readings : List (α × β)} {best : α × β}

omit [DecidableRel r] in
theorem attains_singleton (best : α × β) : Attains r [best] best := ⟨[], [], rfl, by simp, by simp⟩

variable [IsStrictTotalOrder α r]

theorem Attains.concat (h : Attains r readings best) (next : α × β) :
    Attains r (readings ++ [next]) (keep_first r best next) := by
  obtain ⟨before, after, rfl, hbefore, hafter⟩ := h
  by_cases hbetter : r next.1 best.1
  · rw [keep_first, if_pos hbetter]
    refine ⟨before ++ best :: after, [], rfl, ?_, by simp⟩
    intro p hp
    obtain hp | rfl | hp := List.mem_append.mp hp |>.imp_right List.mem_cons.mp
    · exact trans_of r hbetter (hbefore p hp)
    · exact hbetter
    · obtain hless | heq | hless := trichotomous_of r best.1 p.1
      · exact trans_of r hbetter hless
      · rwa [← heq]
      · exact absurd hless (hafter p hp)
  · rw [keep_first, if_neg hbetter]
    refine ⟨before, after ++ [next], by simp, hbefore, ?_⟩
    intro p hp
    obtain hp | hp := List.mem_append.mp hp
    · exact hafter p hp
    · rwa [List.mem_singleton.mp hp]

omit [DecidableRel r] in
/-- The value attained is the one that none of the values is better than. -/
theorem Attains.value_eq_iff (h : Attains r readings best) {v : α} :
    best.1 = v ↔ v ∈ readings.map Prod.fst ∧ ∀ x ∈ readings.map Prod.fst, ¬ r x v := by
  have hbest : ∀ p ∈ readings, ¬ r p.1 best.1 := by
    obtain ⟨before, after, rfl, hbefore, hafter⟩ := h
    intro p hp
    obtain hp | rfl | hp := List.mem_append.mp hp |>.imp_right List.mem_cons.mp
    · exact asymm_of r (hbefore p hp)
    · exact irrefl_of r _
    · exact hafter p hp
  have hmem : best ∈ readings := by
    obtain ⟨before, after, rfl, -⟩ := h
    simp
  constructor
  · rintro rfl
    exact ⟨List.mem_map_of_mem hmem, List.forall_mem_map.mpr hbest⟩
  · rintro ⟨hv, hleast⟩
    obtain ⟨p, hp, rfl⟩ := List.mem_map.mp hv
    obtain hless | heq | hless := trichotomous_of r best.1 p.1
    · exact absurd hless (hleast _ (List.mem_map_of_mem hmem))
    · exact heq
    · exact absurd hless (hbest p hp)

end First

end RunningStats
