import PowerApi.Lib.SortedList

open SortedList

/-- A library of sequences kept sorted by a comparison function, as far as it is documented:
`lookup` finds the position of an element that compares equal, and `insert_sorted` enters an
element in its place. Of a sequence that is not sorted nothing is promised. -/
class SortedSequence where
  lookup {α : Type} : List α → α → (α → α → Int) → Option Nat
  insert_sorted {α : Type} : List α → α → (α → α → Int) → List α
  lookup_some {α : Type} {l : List α} {x : α} {cmp : α → α → Int} {i : Nat} :
    (∀ a b c, Consistent cmp a b c) → Sorted cmp l → lookup l x cmp = some i →
      ∃ y, l[i]? = some y ∧ cmp y x = 0
  lookup_none {α : Type} {l : List α} {x : α} {cmp : α → α → Int} :
    (∀ a b c, Consistent cmp a b c) → Sorted cmp l → lookup l x cmp = none → ∀ y ∈ l, cmp y x ≠ 0
  insert_perm {α : Type} {l : List α} {x : α} {cmp : α → α → Int} :
    (∀ a b c, Consistent cmp a b c) → Sorted cmp l → (insert_sorted l x cmp).Perm (x :: l)
  insert_keeps_sorted {α : Type} {l : List α} {x : α} {cmp : α → α → Int} :
    (∀ a b c, Consistent cmp a b c) → Sorted cmp l → Sorted cmp (insert_sorted l x cmp)

namespace SortedSequence

variable {α : Type} {l : List α} {x : α} {cmp : α → α → Int}

section Rules

variable [SortedSequence]

theorem mem_insert_sorted (hcmp : ∀ a b c, Consistent cmp a b c) (hl : Sorted cmp l) {y : α} :
    y ∈ insert_sorted l x cmp ↔ y = x ∨ y ∈ l := by
  rw [(insert_perm hcmp hl).mem_iff, List.mem_cons]

/-- An element that no other one compares equal to is found where it is. -/
theorem lookup_of_mem (hcmp : ∀ a b c, Consistent cmp a b c) (hl : Sorted cmp l) (hx : x ∈ l)
    (hself : cmp x x = 0) (honly : ∀ y ∈ l, cmp y x = 0 → y = x) :
    ∃ i, lookup l x cmp = some i ∧ l[i]? = some x := by
  cases hlookup : lookup l x cmp with
  | none => exact absurd hself (lookup_none hcmp hl hlookup x hx)
  | some i =>
    obtain ⟨y, hy, hzero⟩ := lookup_some hcmp hl hlookup
    obtain rfl := honly y (List.mem_of_getElem? hy) hzero
    exact ⟨i, rfl, hy⟩

theorem notMem_of_lookup_none (hcmp : ∀ a b c, Consistent cmp a b c) (hl : Sorted cmp l)
    (hself : cmp x x = 0) (h : lookup l x cmp = none) : x ∉ l :=
  fun hx => lookup_none hcmp hl h x hx hself

end Rules

/-- Removal by position is removal of the element where it occurs once. -/
theorem eraseIdx_eq_erase [BEq α] [LawfulBEq α] {i : Nat} (hl : l.Nodup) (h : l[i]? = some x) :
    l.eraseIdx i = l.erase x := by
  obtain ⟨hi, rfl⟩ := List.getElem?_eq_some_iff.mp h
  exact (hl.erase_getElem i hi).symm

/-- Consistency of three elements is what the walk of a sorted insertion relies on. -/
theorem sorted_insert_of_consistent (hcmp : ∀ a b c, Consistent cmp a b c) (hl : Sorted cmp l) :
    Sorted cmp (SortedList.insert_sorted l x cmp) := by
  refine pairwise_insert_sorted (fun y _ hle => hle) ?_ (fun y _ z _ => (hcmp x y z).trans) hl
  intro y _ hpos
  have hsign := (hcmp x y y).opposite
  rw [Int.sign_eq_one_of_pos hpos] at hsign
  have hneg : (cmp y x).sign = -1 := by omega
  exact le_of_lt (Int.sign_eq_neg_one_iff_neg.mp hneg)

/-- The sequences that are searched and entered from the front. -/
@[reducible] def from_front : SortedSequence where
  lookup l x cmp := l.findIdx? fun y => decide (cmp y x = 0)
  insert_sorted := SortedList.insert_sorted
  lookup_some _ _ h := by
    obtain ⟨hi, hzero, -⟩ := List.findIdx?_eq_some_iff_getElem.mp h
    exact ⟨_, List.getElem?_eq_getElem hi, of_decide_eq_true hzero⟩
  lookup_none _ _ h y hy := of_decide_eq_false (List.findIdx?_eq_none_iff.mp h y hy)
  insert_perm _ _ := insert_sorted_perm _ _ _
  insert_keeps_sorted := sorted_insert_of_consistent

end SortedSequence
