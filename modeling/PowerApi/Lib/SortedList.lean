import Mathlib.Data.List.Sort
import Mathlib.Data.Multiset.AddSub

namespace SortedList

variable {α L : Type} [LinearOrder L]

/-- Insertion into a singly linked list with a comparison function: the walk
    goes on while the new element compares greater than the current one. -/
def insert_sorted (l : List α) (x : α) (cmp : α → α → Int) : List α :=
  match l with
  | [] => [x]
  | y :: ys => if cmp x y ≤ 0 then x :: y :: ys else y :: insert_sorted ys x cmp

/-- No element compares greater than a later one. -/
def Sorted (cmp : α → α → Int) (l : List α) : Prop := l.Pairwise fun a b => cmp a b ≤ 0

instance (cmp : α → α → Int) (l : List α) : Decidable (Sorted cmp l) :=
  inferInstanceAs (Decidable (List.Pairwise _ _))

/-- On the elements of `D` the comparison function compares ranks in a linear order. -/
structure ComparesRank (cmp : α → α → Int) (D : α → Prop) (rank : α → L) : Prop where
  neg_iff : ∀ {a b}, D a → D b → (cmp a b < 0 ↔ rank a < rank b)
  zero_iff : ∀ {a b}, D a → D b → (cmp a b = 0 ↔ rank a = rank b)

/-- On three elements the comparison function orders both ways round alike, it is
transitive, and so are its ties. -/
structure Consistent (cmp : α → α → Int) (a b c : α) : Prop where
  opposite : (cmp a b).sign = -(cmp b a).sign
  trans : cmp a b ≤ 0 → cmp b c ≤ 0 → cmp a c ≤ 0
  ties_trans : cmp a b = 0 → cmp b c = 0 → cmp a c = 0

namespace ComparesRank

variable {cmp : α → α → Int} {D : α → Prop} {rank : α → L}

theorem le_iff (h : ComparesRank cmp D rank) {a b : α} (ha : D a) (hb : D b) :
    cmp a b ≤ 0 ↔ rank a ≤ rank b := by
  rw [Int.le_iff_lt_or_eq, h.neg_iff ha hb, h.zero_iff ha hb, le_iff_lt_or_eq]

theorem pos_iff (h : ComparesRank cmp D rank) {a b : α} (ha : D a) (hb : D b) :
    0 < cmp a b ↔ rank b < rank a := by
  rw [← Int.not_le, h.le_iff ha hb, not_le]

theorem consistent (h : ComparesRank cmp D rank) {a b c : α} (ha : D a) (hb : D b) (hc : D c) :
    Consistent cmp a b c where
  opposite := by
    obtain hlt | heq | hgt := lt_trichotomy (rank a) (rank b)
    · rw [Int.sign_eq_neg_one_of_neg ((h.neg_iff ha hb).mpr hlt),
        Int.sign_eq_one_of_pos ((h.pos_iff hb ha).mpr hlt)]
    · rw [(h.zero_iff ha hb).mpr heq, (h.zero_iff hb ha).mpr heq.symm]
      rfl
    · rw [Int.sign_eq_one_of_pos ((h.pos_iff ha hb).mpr hgt),
        Int.sign_eq_neg_one_of_neg ((h.neg_iff hb ha).mpr hgt)]
      rfl
  trans hab hbc := by
    rw [h.le_iff ha hb] at hab
    rw [h.le_iff hb hc] at hbc
    exact (h.le_iff ha hc).mpr (hab.trans hbc)
  ties_trans hab hbc := by
    rw [h.zero_iff ha hb] at hab
    rw [h.zero_iff hb hc] at hbc
    exact (h.zero_iff ha hc).mpr (hab.trans hbc)

theorem mono {D' : α → Prop} (h : ComparesRank cmp D rank) (hD : ∀ a, D' a → D a) :
    ComparesRank cmp D' rank where
  neg_iff ha hb := h.neg_iff (hD _ ha) (hD _ hb)
  zero_iff ha hb := h.zero_iff (hD _ ha) (hD _ hb)

end ComparesRank

section Insert

variable {cmp : α → α → Int} {x : α} {l : List α}

@[simp] theorem insert_sorted_nil : insert_sorted [] x cmp = [x] := rfl

theorem insert_sorted_perm (l : List α) (x : α) (cmp : α → α → Int) :
    (insert_sorted l x cmp).Perm (x :: l) := by
  induction l with
  | nil => exact List.Perm.refl _
  | cons y ys ih =>
    unfold insert_sorted
    split
    · exact List.Perm.refl _
    · exact (ih.cons y).trans (List.Perm.swap x y ys)

@[simp] theorem mem_insert_sorted {z : α} : z ∈ insert_sorted l x cmp ↔ z = x ∨ z ∈ l := by
  rw [(insert_sorted_perm l x cmp).mem_iff, List.mem_cons]

theorem insert_sorted_ne_nil : insert_sorted l x cmp ≠ [] := by
  intro h
  have hx : x ∈ insert_sorted l x cmp := mem_insert_sorted.mpr (Or.inl rfl)
  simp [h] at hx

/-- The head of the longer list is the new element or the old head. -/
theorem head_insert_sorted_cons (y : α) (ys : List α) :
    (insert_sorted (y :: ys) x cmp).head? = some (if cmp x y ≤ 0 then x else y) := by
  unfold insert_sorted
  split <;> simp

/-- A transitive relation that holds between the new element and those it stops
before, and between those it passes and the new element, holds along the longer list. -/
theorem pairwise_insert_sorted {R : α → α → Prop} (hstop : ∀ y ∈ l, cmp x y ≤ 0 → R x y)
    (hpass : ∀ y ∈ l, 0 < cmp x y → R y x) (htrans : ∀ y ∈ l, ∀ z ∈ l, R x y → R y z → R x z)
    (hl : l.Pairwise R) : (insert_sorted l x cmp).Pairwise R := by
  induction l with
  | nil => exact List.pairwise_singleton _ _
  | cons y ys ih =>
    obtain ⟨hy, hys⟩ := List.pairwise_cons.mp hl
    unfold insert_sorted
    split
    · next hle =>
      have hxy : R x y := hstop y List.mem_cons_self hle
      refine List.pairwise_cons.mpr ⟨?_, hl⟩
      intro z hz
      obtain rfl | hmem := List.mem_cons.mp hz
      · exact hxy
      · exact htrans y List.mem_cons_self z hz hxy (hy z hmem)
    · next hgt =>
      have hrest := ih (fun z hz => hstop z (List.mem_cons_of_mem y hz))
        (fun z hz => hpass z (List.mem_cons_of_mem y hz))
        (fun z hz w hw => htrans z (List.mem_cons_of_mem y hz) w (List.mem_cons_of_mem y hw)) hys
      refine List.pairwise_cons.mpr ⟨?_, hrest⟩
      intro z hz
      obtain rfl | hmem := mem_insert_sorted.mp hz
      · exact hpass y List.mem_cons_self (by omega)
      · exact hy z hmem

theorem sorted_insert_sorted {D : α → Prop} {rank : α → L} (h : ComparesRank cmp D rank)
    (hx : D x) (hD : ∀ y ∈ l, D y) (hs : Sorted cmp l) : Sorted cmp (insert_sorted l x cmp) := by
  refine pairwise_insert_sorted (fun y _ hle => hle) ?_ ?_ hs
  · intro y hy hpos
    rw [h.le_iff (hD y hy) hx]
    exact le_of_lt ((h.pos_iff hx (hD y hy)).mp hpos)
  · intro y hy z hz hxy hyz
    rw [h.le_iff hx (hD y hy)] at hxy
    rw [h.le_iff (hD y hy) (hD z hz)] at hyz
    exact (h.le_iff hx (hD z hz)).mpr (hxy.trans hyz)

end Insert

section Head

variable {cmp : α → α → Int} {D : α → Prop} {rank : α → L} {l : List α} {a : α}

/-- The head of a sorted list has the least rank. -/
theorem Sorted.head_le (h : ComparesRank cmp D rank) (hs : Sorted cmp l) (hD : ∀ y ∈ l, D y)
    (ha : l.head? = some a) {b : α} (hb : b ∈ l) : rank a ≤ rank b := by
  obtain ⟨tail, rfl⟩ : ∃ tail, l = a :: tail := by
    cases l with
    | nil => simp at ha
    | cons y ys => exact ⟨ys, by simpa using ha⟩
  rcases List.mem_cons.mp hb with rfl | hmem
  · exact le_refl _
  · have hle := (List.pairwise_cons.mp hs).1 b hmem
    exact (h.le_iff (hD a (by simp)) (hD b hb)).mp hle

theorem Sorted.sublist {l' : List α} (hs : Sorted cmp l) (hsub : l'.Sublist l) : Sorted cmp l' :=
  List.Pairwise.sublist hsub hs

end Head

section Remove

variable {K : Type} [DecidableEq K] {id : α → K} {l : List α} {x : α}

/-- Removal of the first element that is the same object as `x`, objects being
    told apart by their identity (the address, for list cells that hold pointers). -/
def remove (id : α → K) (l : List α) (x : α) : List α := l.eraseP fun y => decide (id y = id x)

theorem remove_sublist (id : α → K) (l : List α) (x : α) : (remove id l x).Sublist l :=
  List.eraseP_sublist

theorem remove_eq_filter (hnodup : (l.map id).Nodup) :
    remove id l x = l.filter fun y => decide (id y ≠ id x) := by
  induction l with
  | nil => rfl
  | cons y ys ih =>
    obtain ⟨hy, hys⟩ := List.nodup_cons.mp hnodup
    by_cases hyx : id y = id x
    · have hrest : ys.filter (fun z => decide (id z ≠ id x)) = ys := by
        refine List.filter_eq_self.mpr fun z hz => ?_
        have : id z ≠ id y := fun hzy => hy (hzy ▸ List.mem_map_of_mem hz)
        simpa [← hyx] using this
      rw [List.filter_cons_of_neg (by simpa using hyx), hrest]
      simp [remove, hyx]
    · have hrec := ih hys
      simp only [remove] at hrec
      simp [remove, hyx, hrec]

/-- Removing a listed object takes out exactly one list cell. -/
theorem perm_cons_remove (hnodup : (l.map id).Nodup) (hx : x ∈ l) : l.Perm (x :: remove id l x) := by
  induction l with
  | nil => simp at hx
  | cons y ys ih =>
    obtain ⟨hy, hys⟩ := List.nodup_cons.mp hnodup
    by_cases hyx : id y = id x
    · rcases List.mem_cons.mp hx with rfl | hmem
      · simp [remove]
      · exact absurd (hyx ▸ List.mem_map_of_mem hmem) hy
    · have hmem : x ∈ ys := by
        rcases List.mem_cons.mp hx with rfl | hmem
        · exact absurd rfl hyx
        · exact hmem
      have hrec : remove id (y :: ys) x = y :: remove id ys x := by simp [remove, hyx]
      rw [hrec]
      exact ((ih hys hmem).cons y).trans (List.Perm.swap x y _)

theorem Sorted.remove {cmp : α → α → Int} (hs : Sorted cmp l) : Sorted cmp (SortedList.remove id l x) :=
  hs.sublist (remove_sublist id l x)

end Remove

end SortedList
