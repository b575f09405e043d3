import PowerApi.Lib.Scanf

open Scanf

namespace Strtoul

/-- The digit that a character is, in bases up to 36. -/
def digit (c : Char) : Option ℕ :=
  if c.isDigit then some (c.toNat - '0'.toNat)
  else if c.isLower then some (c.toNat - 'a'.toNat + 10)
  else if c.isUpper then some (c.toNat - 'A'.toNat + 10)
  else none

def is_digit (base : ℕ) (c : Char) : Bool := (digit c).any fun d => d < base

def number (base : ℕ) (digits : List Char) : ℕ := digits.foldl (fun n c => base * n + (digit c).getD 0) 0

/-- What follows `0x`, if that is a digit. -/
def hex_digits : List Char → Option (List Char)
  | '0' :: x :: c :: rest => if (x = 'x' ∨ x = 'X') ∧ is_digit 16 c then some (c :: rest) else none
  | _ => none

/-- The base that a number is in, where none is asked for, and its digits. -/
def radix (base : ℕ) (s : List Char) : ℕ × List Char :=
  if base = 0 ∨ base = 16 then
    match hex_digits s with
    | some digits => (16, digits)
    | none => (if base = 16 then 16 else if s.head? = some '0' then 8 else 10, s)
  else (base, s)

/-- What `strtoul` returns, where it ends, and whether `errno` is set to `ERANGE`. -/
structure Result where
  value : UInt64
  endptr : List Char
  erange : Bool
  deriving DecidableEq

def ULONG_MAX : UInt64 := 0xFFFFFFFFFFFFFFFF

/-- The number of the digits, with its sign, or the greatest one on an overflow. -/
def convert (sign : Int) (n : ℕ) : UInt64 :=
  if 2 ^ 64 ≤ n then ULONG_MAX
  else if sign < 0 then -UInt64.ofNat n
  else UInt64.ofNat n

def strtoul (space : Char → Bool) (str : List Char) (base : ℕ) : Result :=
  let (sign, s) := scan_sign (str.dropWhile space)
  let (base, s) := radix base s
  let digits := s.takeWhile (is_digit base)
  if digits = [] then { value := 0, endptr := str, erange := false }
  else
    { value := convert sign (number base digits)
      endptr := s.dropWhile (is_digit base)
      erange := 2 ^ 64 ≤ number base digits }

section Decimal

variable {n : ℕ} {c : Char} {word rest : List Char}

theorem digit_of_isDigit (h : c.isDigit) : digit c = some (c.toNat - '0'.toNat) := if_pos h

/-- A character that is a decimal digit is one in all bases from ten on. -/
theorem is_digit_of_isDigit {base : ℕ} (hbase : 10 ≤ base) (h : c.isDigit) : is_digit base c = true := by
  have hle : c.toNat ≤ 57 := by
    have hc := (Bool.and_eq_true_iff.mp h).2
    simpa [UInt32.le_iff_toNat_le] using hc
  have hzero : '0'.toNat = 48 := rfl
  rw [is_digit, digit_of_isDigit h, Option.any_some, decide_eq_true_iff, hzero]
  omega

theorem number_ten (hword : ∀ c ∈ word, c.isDigit) : number 10 word = Nat.ofDigitChars 10 word 0 := by
  rw [number, Nat.ofDigitChars_eq_foldl]
  refine List.foldl_ext _ _ _ fun n c hc => ?_
  rw [digit_of_isDigit (hword c hc), Option.getD_some]

/-- No number but zero begins with the digit zero. -/
theorem head_toDigits (h : (Nat.toDigits 10 n).head? = some '0') : n = 0 := by
  induction n using Nat.strongRecOn with
  | _ n ih =>
    by_cases hlt : n < 10
    · have hdigit : ∀ n < 10, [Nat.digitChar n].head? = some '0' → n = 0 := by decide
      rw [Nat.toDigits_of_lt_base hlt] at h
      exact hdigit n hlt h
    · rw [Nat.toDigits_of_base_le (by decide) (Nat.le_of_not_lt hlt)] at h
      rw [List.head?_append_of_ne_nil _ Nat.toDigits_ne_nil] at h
      have hzero := ih (n / 10) (by omega) h
      omega

theorem hex_digits_of_head (h : word.head? ≠ some '0') : hex_digits word = none := by
  unfold hex_digits
  split
  · exact absurd rfl h
  · rfl

/-- Behind a zero that nothing with a digit follows is no hexadecimal number. -/
theorem hex_digits_zero (hrest : ∀ c ∈ rest.head?, digit c = none) : hex_digits ('0' :: rest) = none := by
  unfold hex_digits
  split
  · next x c tail heq =>
    obtain ⟨_, rfl⟩ := List.cons.inj heq
    have hx := hrest x rfl
    rw [if_neg]
    rintro ⟨rfl | rfl, _⟩
    · exact absurd hx (by decide)
    · exact absurd hx (by decide)
  · rfl

/-- The base in which a decimal number is read, which is the octal one for a zero. -/
theorem radix_toDigits (hrest : ∀ c ∈ rest.head?, digit c = none) {base : ℕ} (hbase : base = 0 ∨ base = 10) (n : ℕ) :
    ∃ base', radix base (Nat.toDigits 10 n ++ rest) = (base', Nat.toDigits 10 n ++ rest) ∧
      (∀ c ∈ Nat.toDigits 10 n, is_digit base' c = true) ∧ number base' (Nat.toDigits 10 n) = n := by
  have hdigits (c : Char) (hc : c ∈ Nat.toDigits 10 n) : c.isDigit :=
    Nat.isDigit_of_mem_toDigits (by decide) (by decide) hc
  have hten : (∀ c ∈ Nat.toDigits 10 n, is_digit 10 c = true) ∧ number 10 (Nat.toDigits 10 n) = n :=
    ⟨fun c hc => is_digit_of_isDigit (Nat.le_refl 10) (hdigits c hc),
      (number_ten hdigits).trans Nat.ofDigitChars_ten_toDigits⟩
  rcases hbase with rfl | rfl
  · by_cases hn : n = 0
    · subst hn
      rw [Nat.toDigits_zero]
      refine ⟨8, ?_, List.forall_mem_singleton.mpr (by decide), by decide⟩
      rw [radix, if_pos (Or.inl rfl), List.singleton_append, hex_digits_zero hrest]
      rfl
    · refine ⟨10, ?_, hten⟩
      have hhead : (Nat.toDigits 10 n ++ rest).head? ≠ some '0' := by
        rw [List.head?_append_of_ne_nil _ Nat.toDigits_ne_nil]
        exact mt head_toDigits hn
      rw [radix, if_pos (Or.inl rfl), hex_digits_of_head hhead]
      simp only [if_neg hhead, if_neg (show ¬(0 = 16) by decide)]
  · exact ⟨10, if_neg (by decide), hten⟩

/-- A decimal number behind white space is read up to its end, in base ten or in the base that
it has itself. -/
theorem strtoul_toDigits {space : Char → Bool} {before : List Char} (hbefore : ∀ c ∈ before, space c = true)
    (hspace : ∀ c : Char, c.isDigit → space c = false) (hrest : ∀ c ∈ rest.head?, digit c = none) {base : ℕ}
    (hbase : base = 0 ∨ base = 10) (n : ℕ) : strtoul space (before ++ (Nat.toDigits 10 n ++ rest)) base =
      { value := if 2 ^ 64 ≤ n then ULONG_MAX else UInt64.ofNat n, endptr := rest, erange := 2 ^ 64 ≤ n } := by
  obtain ⟨base', hradix, hall, hnumber⟩ := radix_toDigits hrest hbase n
  have hstop : ∀ c ∈ rest.head?, is_digit base' c = false := by
    intro c hc
    rw [is_digit, hrest c hc, Option.any_none]
  obtain ⟨htake, hdrop⟩ := takeWhile_append_all hall hstop
  have hsign : scan_sign ((before ++ (Nat.toDigits 10 n ++ rest)).dropWhile space) =
      (1, Nat.toDigits 10 n ++ rest) := by
    obtain ⟨c, tail, hword⟩ := List.exists_cons_of_ne_nil (Nat.toDigits_ne_nil (n := n) (b := 10))
    have hc : c.isDigit := Nat.isDigit_of_mem_toDigits (by decide) (by decide) (hword ▸ List.mem_cons_self)
    rw [List.dropWhile_append_of_pos hbefore, hword, List.cons_append, List.dropWhile_cons, hspace c hc]
    exact scan_sign_of_isDigit hc
  simp only [strtoul, hsign, hradix, htake, hdrop, hnumber, if_neg Nat.toDigits_ne_nil, convert,
    if_neg (show ¬(1 : Int) < 0 by decide)]

end Decimal

end Strtoul
