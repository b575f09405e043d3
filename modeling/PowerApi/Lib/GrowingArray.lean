import Mathlib.Tactic.Common

/-- An array that grows: the entries there is room for, how many of them are used, and the
entries themselves, each indeterminate until it is written. -/
structure GrowingArray (α : Type) where
  alloc : Nat := 0
  num : Nat := 0
  list : List (Option α) := []
  deriving DecidableEq

namespace GrowingArray

variable {α : Type} {array : GrowingArray α} {vals vals' : List α} {val : α} {i : Nat}

/-- Room for some more entries. Those there are stay. -/
def grow (array : GrowingArray α) (more : Nat) : GrowingArray α :=
  { array with
    alloc := array.alloc + more
    list := array.list ++ List.replicate (array.alloc + more - array.list.length) none }

/-- Writes the first unused entry, for which there must be room. -/
def append (array : GrowingArray α) (val : α) : Option (GrowingArray α) :=
  if array.num < array.list.length then
    some { array with list := array.list.set array.num (some val), num := array.num + 1 }
  else none

/-- Reads an entry, which must have been written. -/
def get (array : GrowingArray α) (i : Nat) : Option α := array.list[i]?.join

/-- Reads the entries in use, all of which must have been written. -/
def contents (array : GrowingArray α) : Option (List α) := (array.list.take array.num).mapM id

/-- Writes the first entries. -/
def overwrite (array : GrowingArray α) (vals : List α) : GrowingArray α :=
  { array with list := vals.map some ++ array.list.drop vals.length }

/-- The array has the values, in their order, in the entries in use. -/
structure Holds (array : GrowingArray α) (vals : List α) : Prop where
  allocated : array.list.length = array.alloc
  num : array.num = vals.length
  values : array.list.take vals.length = vals.map some

theorem holds_empty : Holds ({} : GrowingArray α) [] := ⟨rfl, rfl, rfl⟩

theorem Holds.length_le (h : array.Holds vals) : vals.length ≤ array.list.length := by
  have hlen := congrArg List.length h.values
  rw [List.length_take, List.length_map] at hlen
  omega

theorem Holds.num_le (h : array.Holds vals) : array.num ≤ array.alloc := by
  rw [h.num, ← h.allocated]
  exact h.length_le

theorem Holds.grow (h : array.Holds vals) (more : Nat) : (array.grow more).Holds vals where
  allocated := by
    have hallocated := h.allocated
    simp only [GrowingArray.grow, List.length_append, List.length_replicate]
    omega
  num := h.num
  values := by rw [GrowingArray.grow, List.take_append_of_le_length h.length_le, h.values]

theorem Holds.append (h : array.Holds vals) (hroom : array.num < array.alloc) (val : α) :
    ∃ array', array.append val = some array' ∧ array'.Holds (vals ++ [val]) := by
  have hlt : array.num < array.list.length := by rwa [h.allocated]
  refine ⟨_, if_pos hlt, by rw [List.length_set, h.allocated], by rw [h.num, List.length_append]; rfl, ?_⟩
  have hone : (vals ++ [val]).length = vals.length + 1 := List.length_append
  rw [h.num] at hlt ⊢
  rw [hone, List.take_add_one, List.take_set_of_le (Nat.le_refl _), h.values, List.getElem?_set_self hlt,
    List.map_append]
  rfl

theorem Holds.get (h : array.Holds vals) (hi : i < array.num) : array.get i = vals[i]? := by
  rw [h.num] at hi
  have hvalues := congrArg (·[i]?) h.values
  simp only [List.getElem?_take_of_lt hi, List.getElem?_map] at hvalues
  rw [GrowingArray.get, hvalues]
  cases vals[i]? <;> rfl

theorem mapM_id_map_some (vals : List α) : (vals.map some).mapM id = some vals := by
  induction vals with
  | nil => rfl
  | cons val rest ih => rw [List.map_cons, List.mapM_cons, ih]; rfl

theorem Holds.contents (h : array.Holds vals) : array.contents = some vals := by
  rw [GrowingArray.contents, h.num, h.values, mapM_id_map_some]

theorem Holds.overwrite (h : array.Holds vals) (hlen : vals'.length = vals.length) :
    (array.overwrite vals').Holds vals' where
  allocated := by
    have hle := h.length_le
    have hallocated := h.allocated
    simp only [GrowingArray.overwrite, List.length_append, List.length_map, List.length_drop]
    omega
  num := h.num.trans hlen.symm
  values := by
    have hmap : vals'.length = (vals'.map some).length := by rw [List.length_map]
    rw [GrowingArray.overwrite, List.take_append_of_le_length (Nat.le_of_eq hmap), hmap, List.take_length]

end GrowingArray
