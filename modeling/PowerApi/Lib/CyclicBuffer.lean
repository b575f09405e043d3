import Mathlib.Data.List.Rotate

namespace CyclicBuffer

variable {α : Type*}

/-- `n` places from `i` on, if the buffer has them. -/
def read (l : List α) (i n : ℕ) : Option (List α) :=
  if i + n ≤ l.length then some ((l.drop i).take n) else none

/-- The buffer with `xs` from `i` on, if it has the room. -/
def write (l : List α) (i : ℕ) (xs : List α) : Option (List α) :=
  if i + xs.length ≤ l.length then some (l.take i ++ xs ++ l.drop (i + xs.length)) else none

/-- The place `n` places after `i` around a buffer of `size` places. -/
def advance (size i n : ℕ) : ℕ :=
  if i + n < size then i + n else i + n - size

theorem read_eq {l : List α} {i n : ℕ} (h : i + n ≤ l.length) :
    read l i n = some ((l.drop i).take n) := if_pos h

theorem write_eq {l xs : List α} {i : ℕ} (h : i + xs.length ≤ l.length) :
    write l i xs = some (l.take i ++ xs ++ l.drop (i + xs.length)) := if_pos h

section Frame

variable {l l' xs : List α} {i j n : ℕ}

theorem length_of_write (h : write l i xs = some l') : l'.length = l.length := by
  rw [write] at h
  split_ifs at h with hroom
  cases h
  simp only [List.length_append, List.length_take, List.length_drop]
  omega

/-- What is read apart from a write is what was there. -/
theorem read_of_write_of_disjoint (h : write l i xs = some l') (hj : j + n ≤ i ∨ i + xs.length ≤ j) :
    read l' j n = read l j n := by
  have hlength := length_of_write h
  rw [write] at h
  split_ifs at h with hroom
  cases h
  rw [read, read, hlength]
  congr 2
  apply List.ext_getElem?
  intro k
  simp only [List.getElem?_take, List.getElem?_drop, List.append_assoc]
  split_ifs with hk
  · rcases hj with hj | hj
    · rw [List.getElem?_append_left (by rw [List.length_take]; omega), List.getElem?_take,
        if_pos (by omega)]
    · rw [List.getElem?_append_right (by rw [List.length_take]; omega), List.length_take,
        Nat.min_eq_left (by omega), List.getElem?_append_right (by omega), List.getElem?_drop]
      congr 1
      omega
  · rfl

/-- What is read where a write starts is what it wrote. -/
theorem read_of_write (h : write l i xs = some l') (hn : n ≤ xs.length) :
    read l' i n = some (xs.take n) := by
  have hlength := length_of_write h
  rw [write] at h
  split_ifs at h with hroom
  cases h
  rw [read_eq (by omega), List.append_assoc, List.drop_append,
    List.drop_of_length_le (by rw [List.length_take]; omega), List.nil_append, List.length_take,
    Nat.min_eq_left (by omega), Nat.sub_self, List.drop_zero, List.take_append_of_le_length hn]

end Frame

theorem advance_lt {size i n : ℕ} (hi : i < size) (hn : n ≤ size) : advance size i n < size := by
  unfold advance
  split_ifs
  · assumption
  · omega

theorem advance_advance {size i m n : ℕ} (hi : i < size) (h : m + n ≤ size) :
    advance size (advance size i m) n = advance size i (m + n) := by
  unfold advance
  split_ifs <;> omega

theorem rotate_advance {l : List α} {i n : ℕ} :
    l.rotate (advance l.length i n) = (l.rotate i).rotate n := by
  rw [List.rotate_rotate]
  unfold advance
  split_ifs with h
  · rfl
  · have hwrap : i + n = i + n - l.length + l.length := by omega
    rw [← List.rotate_mod l (i + n), ← List.rotate_mod l (i + n - l.length)]
    conv_rhs => rw [hwrap, Nat.add_mod_right]

section Rotation

variable {l xs : List α} {i n : ℕ}

/-- What is read in one piece. -/
theorem take_rotate_of_le (hi : i ≤ l.length) (h : i + n ≤ l.length) :
    (l.rotate i).take n = (l.drop i).take n := by
  rw [List.rotate_eq_drop_append_take hi, List.take_append_of_le_length]
  rw [List.length_drop]
  omega

/-- What is read in two pieces, up to the end and on from the start. -/
theorem take_rotate_of_ge (hi : i ≤ l.length) (h : l.length ≤ i + n) (hn : n ≤ l.length) :
    (l.rotate i).take n = l.drop i ++ l.take (n - (l.length - i)) := by
  rw [List.rotate_eq_drop_append_take hi, List.take_append, List.length_drop,
    List.take_of_length_le (by rw [List.length_drop]; omega), List.take_take,
    Nat.min_eq_left (by omega)]

theorem rotate_append {xs ys : List α} (h : xs.length = i) : (xs ++ ys).rotate i = ys ++ xs := by
  rw [← h, List.rotate_append_length_eq]

/-- A write in one piece. -/
theorem rotate_write_of_le (h : i + xs.length ≤ l.length) :
    (l.take i ++ xs ++ l.drop (i + xs.length)).rotate i = xs ++ (l.rotate i).drop xs.length := by
  have htake : (l.take i).length = i := by rw [List.length_take]; omega
  rw [List.append_assoc, rotate_append htake, List.rotate_eq_drop_append_take (by omega),
    List.drop_append_of_le_length (by rw [List.length_drop]; omega), List.drop_drop,
    List.append_assoc]

/-- A write in two pieces, `xs` up to the end and `ys` on from the start. -/
theorem rotate_write_of_ge {ys : List α} (hxs : i + xs.length = l.length) (hys : ys.length ≤ i) :
    (ys ++ (l.take i ++ xs).drop ys.length).rotate i =
      xs ++ ys ++ (l.rotate i).drop (xs.length + ys.length) := by
  have htake : (l.take i).length = i := by rw [List.length_take]; omega
  have hhead : (ys ++ (l.take i).drop ys.length).length = i := by
    simp only [List.length_append, List.length_drop, htake]
    omega
  have hdrop : (l.drop i).length = xs.length := by rw [List.length_drop]; omega
  rw [List.drop_append_of_le_length (by omega), ← List.append_assoc, rotate_append hhead,
    List.rotate_eq_drop_append_take (by omega), ← List.drop_drop, ← hdrop, List.drop_left,
    List.append_assoc]

/-- A write at the end of what a buffer holds extends it. -/
theorem prefix_rotate_of_write {used l' : List α} (hlen : l'.length = l.length)
    (hroom : used.length + xs.length ≤ l.length) (hused : used <+: l.rotate i)
    (hwrite : l'.rotate (advance l.length i used.length) =
      xs ++ (l.rotate (advance l.length i used.length)).drop xs.length) :
    used ++ xs <+: l'.rotate i := by
  obtain ⟨free, hfree⟩ := hused
  have hsize : used.length + free.length = l.length := by
    rw [← List.length_append, hfree, List.length_rotate]
  rw [rotate_advance, ← hfree, List.rotate_append_length_eq] at hwrite
  rw [← hlen, rotate_advance,
    List.drop_append_of_le_length (by omega)] at hwrite
  -- rotated back, the write stands between what was used and what is still free
  have hback := congrArg (List.rotate · (xs ++ free.drop xs.length).length) hwrite
  simp only [← List.append_assoc] at hback
  rw [List.rotate_append_length_eq, List.rotate_rotate] at hback
  have hround : used.length + (xs ++ free.drop xs.length).length = (l'.rotate i).length := by
    simp only [List.length_append, List.length_drop, List.length_rotate]
    omega
  rw [hround, List.rotate_length] at hback
  exact ⟨free.drop xs.length, by rw [hback, List.append_assoc]⟩

end Rotation

end CyclicBuffer
