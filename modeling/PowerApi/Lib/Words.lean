import Mathlib.Data.List.DropRight

namespace Words

variable {α : Type} (sep : α → Bool)

/-- The maximal runs of elements that are not separators. -/
def words (l : List α) : List (List α) := (l.splitOnP sep).filter fun w => !w.isEmpty

/-- What follows the last separator. -/
def last_word (l : List α) : List α := l.rtakeWhile fun x => !sep x

/-- The part of a list up to its last separator, with that separator. -/
def before_last_word (l : List α) : List α := l.rdropWhile fun x => !sep x

section Split

variable {sep} {l r w : List α} {s : α}

@[simp] theorem words_nil : words sep ([] : List α) = [] := rfl

theorem ne_nil_of_mem_words (h : w ∈ words sep l) : w ≠ [] := by
  have hne := (List.mem_filter.mp h).2
  simpa using hne

/-- A separator ends a word and begins no other. -/
theorem words_append_cons (hs : sep s) : words sep (l ++ s :: r) = words sep l ++ words sep r := by
  rw [words, List.splitOnP_append_cons l r hs, List.filter_append, words, words]

theorem words_cons (hs : sep s) : words sep (s :: r) = words sep r := by
  have h := words_append_cons (l := []) (r := r) hs
  simpa using h

theorem words_of_no_sep (hw : ∀ x ∈ w, sep x = false) (hne : w ≠ []) : words sep w = [w] := by
  rw [words, List.splitOnP_eq_singleton hw]
  simpa using hne

theorem flatten_words : (words sep l).flatten = l.filter fun x => !sep x := by
  rw [words, List.flatten_filter_not_isEmpty]
  induction l with
  | nil => rfl
  | cons c l ih =>
    obtain ⟨w, ws, hsplit⟩ := List.exists_cons_of_ne_nil (List.splitOnP_ne_nil sep l)
    rw [hsplit] at ih
    rw [List.splitOnP_cons_eq_if_modifyHead, hsplit]
    by_cases hc : sep c <;> simpa [hc] using ih

/-- Where the first part ends in a separator, no word reaches into the second. -/
theorem words_append (h : ∀ hl : l ≠ [], sep (l.getLast hl)) :
    words sep (l ++ r) = words sep l ++ words sep r := by
  obtain rfl | ⟨front, s, rfl⟩ := List.eq_nil_or_concat l
  · simp
  · have hs : sep s := by simpa using h (by simp)
    have hfront : words sep (front ++ [s]) = words sep front := by
      rw [words_append_cons hs, words_nil, List.append_nil]
    rw [List.concat_eq_append, hfront, List.append_assoc, List.singleton_append, words_append_cons hs]

end Split

section Scan

variable {sep} {l w : List α} {ws : List (List α)}

theorem words_dropWhile : words sep (l.dropWhile sep) = words sep l := by
  induction l with
  | nil => rfl
  | cons s r ih =>
    rw [List.dropWhile_cons]
    split
    · next hs => rw [ih, words_cons hs]
    · rfl

theorem dropWhile_stops {p : α → Bool} {c : α} {r : List α} (h : l.dropWhile p = c :: r) :
    p c = false := by
  have hnot := List.head?_dropWhile_not p l
  rw [h] at hnot
  simpa using hnot

/-- A list that begins with no separator begins with its first word. -/
theorem words_eq_takeWhile_cons {c : α} {r : List α} (hc : sep c = false) :
    words sep (c :: r) =
      (c :: r).takeWhile (fun x => !sep x) :: words sep ((c :: r).dropWhile fun x => !sep x) := by
  generalize hl : c :: r = l
  have hword : ∀ x ∈ l.takeWhile (fun x => !sep x), sep x = false := by
    intro x hx
    simpa using List.mem_takeWhile_imp hx
  have hne : l.takeWhile (fun x => !sep x) ≠ [] := by simp [← hl, hc]
  have hsplit : l.takeWhile (fun x => !sep x) ++ l.dropWhile (fun x => !sep x) = l :=
    List.takeWhile_append_dropWhile
  conv_lhs => rw [← hsplit]
  cases hrest : l.dropWhile fun x => !sep x with
  | nil => rw [List.append_nil, words_of_no_sep hword hne, words_nil]
  | cons s rest =>
    have hs : sep s := by simpa using dropWhile_stops hrest
    rw [words_append_cons hs, words_cons hs, words_of_no_sep hword hne, List.singleton_append]

/-- A scanner that skips separators stands before the first word, and behind that
word either at the end or before a separator. -/
theorem scan_word (h : words sep l = w :: ws) :
    ∃ rest, l.dropWhile sep = w ++ rest ∧ words sep rest = ws ∧ ∀ x ∈ rest.head?, sep x := by
  rw [← words_dropWhile] at h
  cases hl : l.dropWhile sep with
  | nil => simp [hl] at h
  | cons c r =>
    rw [hl, words_eq_takeWhile_cons (dropWhile_stops hl), List.cons.injEq] at h
    obtain ⟨rfl, hws⟩ := h
    refine ⟨_, List.takeWhile_append_dropWhile.symm, hws, ?_⟩
    intro x hx
    obtain ⟨rest, hrest⟩ := List.head?_eq_some_iff.mp (Option.mem_def.mp hx)
    simpa using dropWhile_stops hrest

theorem scan_end (h : words sep l = []) : l.dropWhile sep = [] := by
  rw [← words_dropWhile] at h
  cases hl : l.dropWhile sep with
  | nil => rfl
  | cons c r => simp [hl, words_eq_takeWhile_cons (dropWhile_stops hl)] at h

end Scan

section Append

variable {sep} {l w : List α} {s : α}

theorem last_word_no_sep : ∀ x ∈ last_word sep l, sep x = false := by
  intro x hx
  simpa using List.mem_rtakeWhile_imp hx

/-- What is appended is read as part of the last word. -/
theorem words_append_last_word :
    words sep (l ++ w) = words sep (before_last_word sep l) ++ words sep (last_word sep l ++ w) := by
  have hsplit : before_last_word sep l ++ last_word sep l = l := List.rdropWhile_append_rtakeWhile
  have hlast : ∀ hl : before_last_word sep l ≠ [], sep ((before_last_word sep l).getLast hl) := by
    intro hl
    have hnot : ¬(!sep ((before_last_word sep l).getLast hl)) = true := List.rdropWhile_last_not _ l hl
    simpa using hnot
  conv_lhs => rw [← hsplit, List.append_assoc]
  exact words_append hlast

theorem words_eq_last_word :
    words sep l = words sep (before_last_word sep l) ++ words sep (last_word sep l) := by
  have h : words sep (l ++ []) = _ := words_append_last_word
  simpa using h

/-- A word appended with a separator behind it joins the last word of the list. -/
theorem words_append_word (hs : sep s) (hw : ∀ x ∈ w, sep x = false) (hne : w ≠ []) :
    words sep (l ++ (w ++ [s])) = words sep (before_last_word sep l) ++ [last_word sep l ++ w] := by
  have hjoined : ∀ x ∈ last_word sep l ++ w, sep x = false := by
    intro x hx
    rcases List.mem_append.mp hx with hlast | hx
    · exact last_word_no_sep x hlast
    · exact hw x hx
  have hword : words sep (last_word sep l ++ (w ++ [s])) = [last_word sep l ++ w] := by
    rw [← List.append_assoc, words_append_cons hs, words_of_no_sep hjoined (by simp [hne]), words_nil,
      List.append_nil]
  rw [words_append_last_word, hword]

end Append

end Words
