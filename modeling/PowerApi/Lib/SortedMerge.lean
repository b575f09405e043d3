import Mathlib.Data.Finset.SymmDiff
import Mathlib.Data.List.Dedup
import Mathlib.Order.Basic
import Mathlib.Tactic.Common

/-- A parallel walk over two ascending lists. The flags say whether an element is kept that
only the first list has, that both have, and that only the second has. -/
def sorted_merge {α : Type} [LinearOrder α] (first both second : Bool) : List α → List α → List α
  | [], ys => if second then ys else []
  | x :: xs, [] => if first then x :: xs else []
  | x :: xs, y :: ys =>
    if x < y then
      if first then x :: sorted_merge first both second xs (y :: ys)
      else sorted_merge first both second xs (y :: ys)
    else if y < x then
      if second then y :: sorted_merge first both second (x :: xs) ys
      else sorted_merge first both second (x :: xs) ys
    else
      if both then x :: sorted_merge first both second xs ys
      else sorted_merge first both second xs ys
termination_by xs ys => xs.length + ys.length

namespace SortedMerge

variable {α : Type} [LinearOrder α] {first both second : Bool} {x y z : α} {xs ys : List α}

/-- Below an ascending list's head there is nothing in it. -/
theorem not_mem_of_lt_head (hsorted : (y :: ys).Pairwise (· < ·)) (hlt : x < y) : x ∉ y :: ys := by
  intro hmem
  rcases List.mem_cons.mp hmem with rfl | hmem
  · exact lt_irrefl x hlt
  · exact lt_asymm hlt ((List.pairwise_cons.mp hsorted).1 x hmem)

/-- The elements of the walk: the flags decide for each of the three kinds. -/
theorem mem_sorted_merge (hxs : xs.Pairwise (· < ·)) (hys : ys.Pairwise (· < ·)) :
    z ∈ sorted_merge first both second xs ys ↔
      (z ∈ xs ∧ z ∉ ys ∧ first) ∨ (z ∈ xs ∧ z ∈ ys ∧ both) ∨ (z ∉ xs ∧ z ∈ ys ∧ second) := by
  fun_induction sorted_merge first both second xs ys with
  | case1 ys hsecond => simp [hsecond]
  | case2 ys hsecond => simp [hsecond]
  | case3 x xs hfirst => simp [hfirst]
  | case4 x xs hfirst => simp [hfirst]
  | case5 x xs y ys hlt hfirst ih =>
    have hx := not_mem_of_lt_head hys hlt
    rw [List.mem_cons, ih hxs.of_cons hys]
    have hxxs : x ∉ xs := fun hmem => lt_irrefl x ((List.pairwise_cons.mp hxs).1 x hmem)
    grind
  | case6 x xs y ys hlt hfirst ih =>
    have hx := not_mem_of_lt_head hys hlt
    rw [ih hxs.of_cons hys]
    grind
  | case7 x xs y ys hle hlt hsecond ih =>
    have hy := not_mem_of_lt_head hxs hlt
    rw [List.mem_cons, ih hxs hys.of_cons]
    have hyys : y ∉ ys := fun hmem => lt_irrefl y ((List.pairwise_cons.mp hys).1 y hmem)
    grind
  | case8 x xs y ys hle hlt hsecond ih =>
    have hy := not_mem_of_lt_head hxs hlt
    rw [ih hxs hys.of_cons]
    grind
  | case9 x xs y ys hle hge hboth ih =>
    obtain rfl : x = y := le_antisymm (not_lt.mp hge) (not_lt.mp hle)
    rw [List.mem_cons, ih hxs.of_cons hys.of_cons]
    have hxxs : x ∉ xs := fun hmem => lt_irrefl x ((List.pairwise_cons.mp hxs).1 x hmem)
    have hxys : x ∉ ys := fun hmem => lt_irrefl x ((List.pairwise_cons.mp hys).1 x hmem)
    grind
  | case10 x xs y ys hle hge hboth ih =>
    obtain rfl : x = y := le_antisymm (not_lt.mp hge) (not_lt.mp hle)
    rw [ih hxs.of_cons hys.of_cons]
    have hxxs : x ∉ xs := fun hmem => lt_irrefl x ((List.pairwise_cons.mp hxs).1 x hmem)
    have hxys : x ∉ ys := fun hmem => lt_irrefl x ((List.pairwise_cons.mp hys).1 x hmem)
    grind

/-- Nothing is made up: each element comes from one of the lists. -/
theorem mem_or_mem_of_mem (hxs : xs.Pairwise (· < ·)) (hys : ys.Pairwise (· < ·))
    (hz : z ∈ sorted_merge first both second xs ys) : z ∈ xs ∨ z ∈ ys := by
  rcases (mem_sorted_merge hxs hys).mp hz with h | h | h
  · exact Or.inl h.1
  · exact Or.inl h.1
  · exact Or.inr h.2.1

theorem sorted_merge_sorted (hxs : xs.Pairwise (· < ·)) (hys : ys.Pairwise (· < ·)) :
    (sorted_merge first both second xs ys).Pairwise (· < ·) := by
  fun_induction sorted_merge first both second xs ys with
  | case1 ys hsecond => exact hys
  | case2 ys hsecond => exact List.Pairwise.nil
  | case3 x xs hfirst => exact hxs
  | case4 x xs hfirst => exact List.Pairwise.nil
  | case5 x xs y ys hlt hfirst ih =>
    refine List.pairwise_cons.mpr ⟨fun z hz => ?_, ih hxs.of_cons hys⟩
    rcases mem_or_mem_of_mem hxs.of_cons hys hz with hmem | hmem
    · exact (List.pairwise_cons.mp hxs).1 z hmem
    · rcases List.mem_cons.mp hmem with rfl | hmem
      · exact hlt
      · exact hlt.trans ((List.pairwise_cons.mp hys).1 z hmem)
  | case6 x xs y ys hlt hfirst ih => exact ih hxs.of_cons hys
  | case7 x xs y ys hle hlt hsecond ih =>
    refine List.pairwise_cons.mpr ⟨fun z hz => ?_, ih hxs hys.of_cons⟩
    rcases mem_or_mem_of_mem hxs hys.of_cons hz with hmem | hmem
    · rcases List.mem_cons.mp hmem with rfl | hmem
      · exact hlt
      · exact hlt.trans ((List.pairwise_cons.mp hxs).1 z hmem)
    · exact (List.pairwise_cons.mp hys).1 z hmem
  | case8 x xs y ys hle hlt hsecond ih => exact ih hxs hys.of_cons
  | case9 x xs y ys hle hge hboth ih =>
    obtain rfl : x = y := le_antisymm (not_lt.mp hge) (not_lt.mp hle)
    refine List.pairwise_cons.mpr ⟨fun z hz => ?_, ih hxs.of_cons hys.of_cons⟩
    rcases mem_or_mem_of_mem hxs.of_cons hys.of_cons hz with hmem | hmem
    · exact (List.pairwise_cons.mp hxs).1 z hmem
    · exact (List.pairwise_cons.mp hys).1 z hmem
  | case10 x xs y ys hle hge hboth ih => exact ih hxs.of_cons hys.of_cons

section Sets

theorem toFinset_union (hxs : xs.Pairwise (· < ·)) (hys : ys.Pairwise (· < ·)) :
    (sorted_merge true true true xs ys).toFinset = xs.toFinset ∪ ys.toFinset := by
  ext z
  rw [List.mem_toFinset, mem_sorted_merge hxs hys, Finset.mem_union, List.mem_toFinset, List.mem_toFinset]
  tauto

theorem toFinset_inter (hxs : xs.Pairwise (· < ·)) (hys : ys.Pairwise (· < ·)) :
    (sorted_merge false true false xs ys).toFinset = xs.toFinset ∩ ys.toFinset := by
  ext z
  rw [List.mem_toFinset, mem_sorted_merge hxs hys, Finset.mem_inter, List.mem_toFinset, List.mem_toFinset]
  simp

theorem toFinset_sdiff (hxs : xs.Pairwise (· < ·)) (hys : ys.Pairwise (· < ·)) :
    (sorted_merge true false false xs ys).toFinset = xs.toFinset \ ys.toFinset := by
  ext z
  rw [List.mem_toFinset, mem_sorted_merge hxs hys, Finset.mem_sdiff, List.mem_toFinset, List.mem_toFinset]
  simp

theorem toFinset_symmDiff (hxs : xs.Pairwise (· < ·)) (hys : ys.Pairwise (· < ·)) :
    (sorted_merge true false true xs ys).toFinset = symmDiff xs.toFinset ys.toFinset := by
  ext z
  rw [List.mem_toFinset, mem_sorted_merge hxs hys, Finset.mem_symmDiff, List.mem_toFinset, List.mem_toFinset]
  simp only [and_true, Bool.false_eq_true, and_false, false_or]
  tauto

end Sets

end SortedMerge
