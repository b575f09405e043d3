import Mathlib.Algebra.Group.Nat.Defs
import Mathlib.Data.List.Basic
import Mathlib.Data.List.TakeWhile
import Mathlib.Tactic.Common

namespace Scanf

/-- A directive of a format: white space, a character that has to be there, `%d`, and `%s` with
a maximum width. -/
inductive Directive where
  | space
  | literal (c : Char)
  | int
  | word (width : ℕ)
  deriving DecidableEq, Repr

/-- What a directive reads. -/
inductive Value where
  | int (n : Int)
  | word (s : List Char)
  deriving DecidableEq, Repr

def sign_chars (n : Int) : List Char := if n < 0 then ['-'] else []

/-- The zeros that fill up the width, and the digits. -/
def padded_digits (width n : ℕ) : List Char :=
  List.replicate (width - (Nat.toDigits 10 n).length) '0' ++ Nat.toDigits 10 n

/-- The conversion `%d`, with zeros up to the given width. -/
def print_int (width : ℕ) (n : Int) : List Char :=
  sign_chars n ++ padded_digits (width - (sign_chars n).length) n.natAbs

/-- The sign of a number, and what follows it. -/
def scan_sign : List Char → Int × List Char
  | '-' :: rest => (-1, rest)
  | '+' :: rest => (1, rest)
  | s => (1, s)

section Scan

variable (space : Char → Bool)

/-- The number that `%d` reads, and what follows it. -/
def scan_int (s : List Char) : Option (Int × List Char) :=
  match scan_sign (s.dropWhile space) with
  | (sign, s) =>
    let digits := s.takeWhile Char.isDigit
    if digits = [] then none else some (sign * Nat.ofDigitChars 10 digits 0, s.dropWhile Char.isDigit)

/-- The word that `%s` reads, if it is not empty, and what follows it. -/
def scan_word (width : ℕ) (s : List Char) : Option (List Char × List Char) :=
  let s := s.dropWhile space
  let word := (s.take width).takeWhile fun c => !space c
  if word = [] then none else some (word, s.drop word.length)

/-- What the directives read, up to the first one that fails. -/
def sscanf : List Directive → List Char → List Value
  | [], _ => []
  | .space :: directives, s => sscanf directives (s.dropWhile space)
  | .literal c :: directives, s =>
    match s with
    | [] => []
    | first :: rest => if first = c then sscanf directives rest else []
  | .int :: directives, s =>
    match scan_int space s with
    | none => []
    | some (n, rest) => .int n :: sscanf directives rest
  | .word width :: directives, s =>
    match scan_word space width s with
    | none => []
    | some (word, rest) => .word word :: sscanf directives rest

end Scan

section Print

variable {width n k : ℕ} {i : Int} {c : Char}

theorem isDigit_of_mem_padded_digits (hc : c ∈ padded_digits width n) : c.isDigit := by
  rcases List.mem_append.mp hc with hzero | hdigit
  · rw [List.eq_of_mem_replicate hzero]
    rfl
  · exact Nat.isDigit_of_mem_toDigits (by decide) (by decide) hdigit

theorem padded_digits_ne_nil : padded_digits width n ≠ [] :=
  List.append_ne_nil_of_right_ne_nil _ Nat.toDigits_ne_nil

/-- The zeros in front change nothing. -/
theorem ofDigitChars_padded_digits : Nat.ofDigitChars 10 (padded_digits width n) 0 = n := by
  rw [padded_digits, Nat.ofDigitChars_append, Nat.ofDigitChars_replicate_zero, Nat.mul_zero,
    Nat.ofDigitChars_ten_toDigits]

theorem mem_print_int (hc : c ∈ print_int width i) : c = '-' ∨ c.isDigit := by
  rcases List.mem_append.mp hc with hsign | hdigit
  · unfold sign_chars at hsign
    split_ifs at hsign
    · exact Or.inl (List.mem_singleton.mp hsign)
    · cases hsign
  · exact Or.inr (isDigit_of_mem_padded_digits hdigit)

theorem length_sign_chars_le : (sign_chars i).length ≤ 1 := by
  unfold sign_chars
  split_ifs
  · exact Nat.le_refl 1
  · exact Nat.zero_le 1

/-- A number needs no more than its width, or a sign and its digits. -/
theorem length_print_int_le (hk : 0 < k) (hi : i.natAbs < 10 ^ k) : (print_int width i).length ≤ max width (k + 1) := by
  have hdigits : (Nat.toDigits 10 i.natAbs).length ≤ k := (Nat.length_toDigits_le_iff (by decide) hk).mpr hi
  have hsign := @length_sign_chars_le i
  rw [print_int, padded_digits, List.length_append, List.length_append, List.length_replicate]
  omega

end Print

section Stop

variable {s t : List Char} {p : Char → Bool}

theorem takeWhile_append_of_stop (ht : ∀ c ∈ t.head?, p c = false) : (s ++ t).takeWhile p = s.takeWhile p := by
  induction s with
  | nil =>
    cases t with
    | nil => rfl
    | cons c t =>
      have hc := ht c rfl
      simp [hc]
  | cons c s ih =>
    rw [List.cons_append, List.takeWhile_cons, List.takeWhile_cons, ih]

theorem dropWhile_append_of_stop (ht : ∀ c ∈ t.head?, p c = false) :
    (s ++ t).dropWhile p = s.dropWhile p ++ t := by
  induction s with
  | nil =>
    cases t with
    | nil => rfl
    | cons c t =>
      have hc := ht c rfl
      simp [hc]
  | cons c s ih =>
    rw [List.cons_append, List.dropWhile_cons, List.dropWhile_cons, ih]
    split
    · rfl
    · rfl

end Stop

section RoundTrip

variable {space : Char → Bool} {width : ℕ} {directives : List Directive} {rest : List Char}

theorem takeWhile_append_all {p : Char → Bool} {word : List Char} (hword : ∀ c ∈ word, p c = true)
    (hrest : ∀ c ∈ rest.head?, p c = false) :
    (word ++ rest).takeWhile p = word ∧ (word ++ rest).dropWhile p = rest := by
  rw [takeWhile_append_of_stop hrest, dropWhile_append_of_stop hrest, List.takeWhile_eq_self_iff.mpr hword,
    List.dropWhile_eq_nil_iff.mpr hword]
  exact ⟨rfl, rfl⟩

theorem scan_int_of_digits {s word : List Char} {sign : Int}
    (hsign : scan_sign (s.dropWhile space) = (sign, word ++ rest)) (hword : ∀ c ∈ word, c.isDigit = true)
    (hne : word ≠ []) (hrest : ∀ c ∈ rest.head?, c.isDigit = false) :
    scan_int space s = some (sign * Nat.ofDigitChars 10 word 0, rest) := by
  obtain ⟨htake, hdrop⟩ := takeWhile_append_all hword hrest
  rw [scan_int, hsign]
  simp only [htake, hdrop, if_neg hne]

theorem scan_sign_of_isDigit {c : Char} {s : List Char} (h : c.isDigit) : scan_sign (c :: s) = (1, c :: s) := by
  unfold scan_sign
  split
  · next heq =>
    obtain ⟨rfl, _⟩ := List.cons.inj heq
    exact absurd h (by decide)
  · next heq =>
    obtain ⟨rfl, _⟩ := List.cons.inj heq
    exact absurd h (by decide)
  · rfl

/-- What is printed with `%d` is read with `%d`, where no digit follows. -/
theorem scan_int_print_int (hminus : space '-' = false) (hspace : ∀ c : Char, c.isDigit → space c = false)
    (hrest : ∀ c ∈ rest.head?, c.isDigit = false) (i : Int) :
    scan_int space (print_int width i ++ rest) = some (i, rest) := by
  rw [print_int, List.append_assoc]
  have hdigits := fun c => @isDigit_of_mem_padded_digits (width - (sign_chars i).length) i.natAbs c
  have hne := @padded_digits_ne_nil (width - (sign_chars i).length) i.natAbs
  have hvalue := @ofDigitChars_padded_digits (width - (sign_chars i).length) i.natAbs
  generalize padded_digits (width - (sign_chars i).length) i.natAbs = word at hdigits hne hvalue
  by_cases hneg : i < 0
  · have hsign : sign_chars i = ['-'] := if_pos hneg
    have hscan : scan_sign ((sign_chars i ++ (word ++ rest)).dropWhile space) = (-1, word ++ rest) := by
      rw [hsign, List.singleton_append, List.dropWhile_cons, hminus]
      rfl
    rw [scan_int_of_digits hscan hdigits hne hrest, hvalue, Int.neg_one_mul, Int.ofNat_natAbs_of_nonpos (by omega),
      Int.neg_neg]
  · have hsign : sign_chars i = [] := if_neg hneg
    obtain ⟨c, tail, rfl⟩ := List.exists_cons_of_ne_nil hne
    have hc := hdigits c List.mem_cons_self
    have hscan : scan_sign ((sign_chars i ++ (c :: tail ++ rest)).dropWhile space) = (1, c :: tail ++ rest) := by
      rw [hsign, List.nil_append, List.cons_append, List.dropWhile_cons, hspace c hc]
      exact scan_sign_of_isDigit hc
    rw [scan_int_of_digits hscan hdigits hne hrest, hvalue, Int.one_mul, Int.natAbs_of_nonneg (by omega)]

theorem sscanf_int (hminus : space '-' = false) (hspace : ∀ c : Char, c.isDigit → space c = false)
    (hrest : ∀ c ∈ rest.head?, c.isDigit = false) (i : Int) :
    sscanf space (.int :: directives) (print_int width i ++ rest) = .int i :: sscanf space directives rest := by
  rw [sscanf, scan_int_print_int hminus hspace hrest]

theorem sscanf_literal (c : Char) :
    sscanf space (.literal c :: directives) (c :: rest) = sscanf space directives rest := if_pos rfl

/-- A separator is read as white space, where no other white space follows. -/
theorem sscanf_space {c : Char} (hc : space c = true) (hrest : ∀ d ∈ rest.head?, space d = false) :
    sscanf space (.space :: directives) (c :: rest) = sscanf space directives rest := by
  rw [sscanf, List.dropWhile_cons, if_pos hc]
  cases rest with
  | nil => rfl
  | cons d rest => rw [List.dropWhile_cons, hrest d rfl, if_neg Bool.false_ne_true]

/-- A word that fits the width is read as a word, where white space follows. -/
theorem sscanf_word {word : List Char} (hne : word ≠ []) (hfits : word.length ≤ width)
    (hword : ∀ c ∈ word, space c = false) (hrest : ∀ c ∈ rest.head?, space c = true) :
    sscanf space (.word width :: directives) (word ++ rest) = .word word :: sscanf space directives rest := by
  obtain ⟨c, tail, rfl⟩ := List.exists_cons_of_ne_nil hne
  have hstart : (c :: tail ++ rest).dropWhile space = c :: tail ++ rest := by
    rw [List.cons_append, List.dropWhile_cons, hword c List.mem_cons_self, if_neg Bool.false_ne_true]
  have htake : ((c :: tail ++ rest).take width).takeWhile (fun c => !space c) = c :: tail := by
    rw [List.take_append, List.take_of_length_le hfits, List.takeWhile_append_of_pos (by simpa using hword)]
    cases rest with
    | nil => simp
    | cons d rest =>
      have hd := hrest d rfl
      cases width - (c :: tail).length with
      | zero => simp
      | succ left => simp [hd]
  have hscan : scan_word space width (c :: tail ++ rest) = some (c :: tail, rest) := by
    rw [scan_word, hstart]
    simp only [htake, if_neg hne, List.drop_left]
  rw [sscanf, hscan]

end RoundTrip

section Blank

variable {space : Char → Bool} {blank : Char}

/-- White space at the end changes nothing about the number. -/
theorem scan_int_append_blank {s : List Char} (hspace : space blank = true) (hdigit : blank.isDigit = false) :
    (scan_int space (s ++ [blank])).elim 0 Prod.fst = (scan_int space s).elim 0 Prod.fst := by
  have hstop : ∀ x ∈ [blank].head?, x.isDigit = false := by simpa using hdigit
  have hdigits : ∀ (sign : Int) (t : List Char), (
      if (t ++ [blank]).takeWhile Char.isDigit = [] then none
      else some (sign * Nat.ofDigitChars 10 ((t ++ [blank]).takeWhile Char.isDigit) 0, (t ++ [blank]).dropWhile Char.isDigit)).elim 0 Prod.fst =
      (if t.takeWhile Char.isDigit = [] then none
      else some (sign * Nat.ofDigitChars 10 (t.takeWhile Char.isDigit) 0, t.dropWhile Char.isDigit)).elim (0 : Int) Prod.fst := by
    intro sign t
    rw [takeWhile_append_of_stop hstop]
    split <;> rfl
  cases hdrop : s.dropWhile space with
  | nil =>
    have hall : (s ++ [blank]).dropWhile space = [] := by rw [List.dropWhile_append]; simp [hdrop, hspace]
    rw [scan_int, scan_int, hall, hdrop]
  | cons x t =>
    have hrest : (s ++ [blank]).dropWhile space = x :: (t ++ [blank]) := by rw [List.dropWhile_append]; simp [hdrop]
    rw [scan_int, scan_int, hrest, hdrop]
    by_cases hminus : x = '-'
    · subst hminus
      exact hdigits (-1) t
    · by_cases hplus : x = '+'
      · subst hplus
        exact hdigits 1 t
      · have hsign : ∀ rest, scan_sign (x :: rest) = (1, x :: rest) := by
          intro rest
          unfold scan_sign
          split <;> simp_all
        rw [hsign, hsign]
        exact hdigits 1 (x :: t)

end Blank

end Scanf
