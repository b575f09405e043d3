import Mathlib.Algebra.Ring.Nat
import Mathlib.Algebra.BigOperators.Group.List.Basic

namespace BoundedQueue

variable {α : Type*} (weight : α → ℕ) (size : ℕ)

def total (q : List α) : ℕ := (q.map weight).sum

/-- What a queue of the given size has left. -/
def space (q : List α) : ℕ := size - total weight q

/-- How many of the oldest entries have to go before more than `need` is left. -/
def excess (need : ℕ) : List α → ℕ
  | [] => 0
  | x :: q => if space weight size (x :: q) ≤ need then excess need q + 1 else 0

/-- A put drops the oldest entries that are in its way. -/
def put (q : List α) (x : α) : List α := q.drop (excess weight size (weight x) q) ++ [x]

variable {weight size}

@[simp] theorem total_nil : total weight [] = 0 := rfl

@[simp] theorem total_cons (x : α) (q : List α) :
    total weight (x :: q) = weight x + total weight q := by
  rw [total, List.map_cons, List.sum_cons, total]

@[simp] theorem total_append (q r : List α) :
    total weight (q ++ r) = total weight q + total weight r := by
  rw [total, List.map_append, List.sum_append, total, total]

theorem excess_cons_of_le {need : ℕ} {x : α} {q : List α}
    (h : space weight size (x :: q) ≤ need) :
    excess weight size need (x :: q) = excess weight size need q + 1 := if_pos h

theorem excess_of_lt {need : ℕ} {q : List α} (h : need < space weight size q) :
    excess weight size need q = 0 := by
  cases q with
  | nil => rfl
  | cons x q => exact if_neg (Nat.not_le.mpr h)

theorem excess_le_length (need : ℕ) (q : List α) : excess weight size need q ≤ q.length := by
  induction q with
  | nil => exact Nat.zero_le _
  | cons x q ih =>
    unfold excess
    split_ifs
    · exact Nat.succ_le_succ ih
    · exact Nat.zero_le _

/-- Enough entries go. -/
theorem lt_space_drop_excess {need : ℕ} (h : need < size) (q : List α) :
    need < space weight size (q.drop (excess weight size need q)) := by
  induction q with
  | nil => simpa [space]
  | cons x q ih =>
    by_cases hle : space weight size (x :: q) ≤ need
    · rw [excess_cons_of_le hle]
      exact ih
    · rw [excess_of_lt (Nat.not_le.mp hle)]
      exact Nat.not_le.mp hle

/-- No more entries go than have to. -/
theorem space_drop_le_of_lt_excess {need k : ℕ} {q : List α}
    (h : k < excess weight size need q) : space weight size (q.drop k) ≤ need := by
  induction q generalizing k with
  | nil => exact absurd h (Nat.not_lt_zero k)
  | cons x q ih =>
    by_cases hle : space weight size (x :: q) ≤ need
    · rw [excess_cons_of_le hle] at h
      cases k with
      | zero => exact hle
      | succ k => exact ih (Nat.lt_of_succ_lt_succ h)
    · rw [excess_of_lt (Nat.not_le.mp hle)] at h
      exact absurd h (Nat.not_lt_zero k)

end BoundedQueue
