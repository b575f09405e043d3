import Mathlib.Order.Lattice
import Mathlib.Tactic.Common

namespace AscendingTable

variable {α : Type*} [LinearOrder α] {table : List α} {c : α} {i s : ℕ}

/-- The first place in a table whose entry is at least the value. -/
def first_at_least (table : List α) (c : α) : Option ℕ := table.findIdx? fun x => decide (c ≤ x)

theorem first_at_least_eq_none : first_at_least table c = none ↔ ∀ x ∈ table, x < c := by
  simp [first_at_least, List.findIdx?_eq_none_iff]

theorem first_at_least_spec (h : first_at_least table c = some i) :
    ∃ hi : i < table.length, c ≤ table[i] ∧ ∀ j (hj : j < i), table[j] < c := by
  obtain ⟨hi, hfound, hbefore⟩ := List.findIdx?_eq_some_iff_getElem.mp h
  exact ⟨hi, of_decide_eq_true hfound, fun j hj => by simpa using hbefore j hj⟩

/-- In an ascending table the first place is the lower adjoint of the lookup. -/
theorem first_at_least_le_iff (hascending : table.Pairwise (· ≤ ·)) (h : first_at_least table c = some i)
    (hs : s < table.length) : i ≤ s ↔ c ≤ table[s] := by
  obtain ⟨hi, hfound, hbefore⟩ := first_at_least_spec h
  constructor
  · intro hle
    rcases Nat.lt_or_eq_of_le hle with hlt | rfl
    · exact le_trans hfound (List.pairwise_iff_getElem.mp hascending i s hi hs hlt)
    · exact hfound
  · intro hle
    by_contra hlt
    exact absurd hle (not_le_of_gt (hbefore s (Nat.lt_of_not_le hlt)))

/-- Looking up the entry at the first place leads back to that place. -/
theorem first_at_least_getElem (h : first_at_least table c = some i) (hi : i < table.length) :
    first_at_least table table[i] = some i := by
  obtain ⟨_, hfound, hbefore⟩ := first_at_least_spec h
  refine List.findIdx?_eq_some_iff_getElem.mpr ⟨hi, by simp, fun j hj => ?_⟩
  simpa using lt_of_lt_of_le (hbefore j hj) hfound

end AscendingTable
