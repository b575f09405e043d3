import Mathlib.Tactic.IntervalCases
import Mathlib.Data.List.DropRight
import PowerApi.Api.Timer
import PowerApi.Common.UidSet
import PowerApi.Lib.Strtoul

open Scanf Strtoul
open pwrapi.permissions (isspace isDigit_not_isspace)

namespace pwrapi

/-- `LLONG_MIN`, as it is where an unsigned number is compared with it. -/
abbrev LLONG_MIN : UInt64 := 0x8000000000000000

/-- `LLONG_MAX`, as it is where an unsigned number is compared with it. -/
abbrev LLONG_MAX : UInt64 := 0x7FFFFFFFFFFFFFFF

def HUGE_VAL : Binary64 := ⟨0x7FF0000000000000⟩

/-- `-HUGE_VAL`. -/
def MINUS_HUGE_VAL : Binary64 := ⟨0xFFF0000000000000⟩

/-- `val_type_t`. -/
inductive ValType where
  | TYPE_INVALID | TYPE_UINT64 | TYPE_DOUBLE | TYPE_STRING
  deriving DecidableEq

/-- White space for GLib, which has no vertical tab. -/
def g_ascii_isspace (c : Char) : Bool :=
  c = ' ' || c = '\t' || c = '\n' || c = Char.ofNat 12 || c = '\r'

def g_strstrip (str : List Char) : List Char := (str.dropWhile g_ascii_isspace).rdropWhile g_ascii_isspace

/-- What the C libraries do in a call: the time, the copy of a string, and the double that a
string begins with, with what follows it. -/
structure CLibrary where
  clock_gettime : Option Timespec
  g_strdup : List Char → Option (List Char)
  strtod : List Char → Binary64 × List Char

/-- The memory behind `val`, as it is used for the type. -/
inductive ReadValue where
  | uint64 (val : UInt64)
  | double (val : Binary64)
  | string (val : Option (List Char))
  deriving DecidableEq

/-- What `read_val_from_buf` returns, and what it stores. -/
structure ReadResult where
  retval : Int := PWR_RET_FAILURE
  val : Option ReadValue := none
  tspec : Option Timespec := none
  deriving DecidableEq

/-- The conversion of `read_val_from_buf` to the given type. -/
def convert_buf (lib : CLibrary) (tmp_buf : List Char) : ValType → Int × Option ReadValue
  | .TYPE_UINT64 =>
    let val := (strtoul isspace tmp_buf 0).value
    (if val = LLONG_MIN ∨ val = LLONG_MAX then PWR_RET_FAILURE else PWR_RET_SUCCESS, some (.uint64 val))
  | .TYPE_DOUBLE =>
    let val := (lib.strtod tmp_buf).1
    (if val.feq HUGE_VAL ∨ val.feq MINUS_HUGE_VAL then PWR_RET_FAILURE else PWR_RET_SUCCESS, some (.double val))
  | .TYPE_STRING =>
    let val := lib.g_strdup tmp_buf
    (if val = none then PWR_RET_FAILURE else PWR_RET_SUCCESS, some (.string val))
  | .TYPE_INVALID => (PWR_RET_FAILURE, none)

/-- `read_val_from_buf`, for a `tspec` that is given or not. -/
def read_val_from_buf (lib : CLibrary) (buf : List Char) (type : ValType) (tspec : Bool) : ReadResult :=
  if tspec ∧ lib.clock_gettime = none then {}
  else
    let time := if tspec then lib.clock_gettime else none
    match lib.g_strdup buf with
    | none => { tspec := time }
    | some tmp_buf =>
      match convert_buf lib (g_strstrip tmp_buf) type with
      | (retval, val) => { retval, val, tspec := time }

/-- The unsigned number that was read, if that succeeded. -/
def ReadResult.uint64 (result : ReadResult) : Option UInt64 :=
  match result.retval, result.val with
  | 0, some (.uint64 val) => some val
  | _, _ => none

/-- The number that is taken over for one that `strtoul` reads up to its end. -/
def accepted (n : ℕ) : Option UInt64 :=
  let val := if 2 ^ 64 ≤ n then ULONG_MAX else UInt64.ofNat n
  if val = LLONG_MIN ∨ val = LLONG_MAX then none else some val

/-- A number is read as it is if it has 64 bits, and not at all otherwise. -/
def ReadExactly (n : ℕ) (read : Option UInt64) : Prop := read = if n < 2 ^ 64 then some (UInt64.ofNat n) else none

/-- The number has 64 bits and is not taken for one of the limits of a signed number. -/
def ReadRight (n : ℕ) : Prop := n < 2 ^ 64 ∧ n ≠ 2 ^ 63 - 1 ∧ n ≠ 2 ^ 63

instance (n : ℕ) : Decidable (ReadRight n) := inferInstanceAs (Decidable (_ ∧ _))

section Spaces

variable {c : Char} {s t : List Char} {p : Char → Bool}

theorem digit_of_isspace (h : isspace c = true) : digit c = none := by
  simp only [isspace, Bool.or_eq_true, Bool.and_eq_true, decide_eq_true_eq] at h
  rcases h with rfl | ⟨hlow, hhigh⟩
  · decide
  · rw [← Char.ofNat_toNat c]
    generalize c.toNat = n at hlow hhigh
    interval_cases n <;> decide

theorem isspace_of_g_ascii_isspace (h : g_ascii_isspace c = true) : isspace c = true := by
  simp only [g_ascii_isspace, Bool.or_eq_true, decide_eq_true_eq] at h
  rcases h with (((rfl | rfl) | rfl) | rfl) | rfl <;> decide

theorem rdropWhile_append_of_stop (hs : ∀ c ∈ s.getLast?, p c = false) :
    (s ++ t).rdropWhile p = s ++ t.rdropWhile p := by
  have hstop : ∀ c ∈ s.reverse.head?, p c = false := by rwa [List.head?_reverse]
  rw [List.rdropWhile, List.reverse_append, dropWhile_append_of_stop hstop, List.reverse_append, List.reverse_reverse]
  rfl

end Spaces

section Numeral

variable {lib : CLibrary} {before after : List Char}

/-- A number with its white space is still one when it is stripped. -/
theorem g_strstrip_toDigits (hbefore : ∀ c ∈ before, isspace c = true) (hafter : ∀ c ∈ after, isspace c = true)
    (n : ℕ) : ∃ before' after', g_strstrip (before ++ (Nat.toDigits 10 n ++ after)) =
      before' ++ (Nat.toDigits 10 n ++ after') ∧
        (∀ c ∈ before', isspace c = true) ∧ ∀ c ∈ after', isspace c = true := by
  have hdigits (c : Char) (hc : c ∈ Nat.toDigits 10 n) : g_ascii_isspace c = false := by
    have hdigit : c.isDigit := Nat.isDigit_of_mem_toDigits (by decide) (by decide) hc
    by_contra hspace
    have := isspace_of_g_ascii_isspace (by simpa using hspace)
    rw [isDigit_not_isspace hdigit] at this
    cases this
  have hne : Nat.toDigits 10 n ≠ [] := Nat.toDigits_ne_nil
  have hhead : ∀ c ∈ (Nat.toDigits 10 n ++ after).head?, g_ascii_isspace c = false := by
    intro c hc
    rw [List.head?_append_of_ne_nil _ hne] at hc
    exact hdigits c (List.mem_of_mem_head? hc)
  have hlast : ∀ c ∈ (before.dropWhile g_ascii_isspace ++ Nat.toDigits 10 n).getLast?, g_ascii_isspace c = false := by
    intro c hc
    rw [List.getLast?_append_of_ne_nil _ hne] at hc
    exact hdigits c (List.mem_of_mem_getLast? hc)
  refine ⟨before.dropWhile g_ascii_isspace, after.rdropWhile g_ascii_isspace, ?_, fun c hc => ?_, fun c hc => ?_⟩
  · rw [g_strstrip, dropWhile_append_of_stop hhead, ← List.append_assoc, rdropWhile_append_of_stop hlast,
      List.append_assoc]
  · exact hbefore c ((List.dropWhile_sublist g_ascii_isspace).subset hc)
  · exact hafter c ((List.rdropWhile_prefix g_ascii_isspace after).subset hc)

theorem digit_of_spaces (hafter : ∀ c ∈ after, isspace c = true) : ∀ c ∈ after.head?, digit c = none :=
  fun c hc => digit_of_isspace (hafter c (List.mem_of_mem_head? hc))

/-- The limits of a signed number are not taken over, and what is too large is taken for the
greatest number. -/
theorem accepted_exactly_iff (n : ℕ) : ReadExactly n (accepted n) ↔ ReadRight n := by
  rw [ReadExactly, accepted, ReadRight]
  by_cases hlt : n < 2 ^ 64
  · have hval (limit : UInt64) : UInt64.ofNat n = limit ↔ n = limit.toNat := by
      rw [← UInt64.toNat_inj, UInt64.toNat_ofNat', Nat.mod_eq_of_lt hlt]
    have hmin : LLONG_MIN.toNat = 2 ^ 63 := rfl
    have hmax : LLONG_MAX.toNat = 2 ^ 63 - 1 := rfl
    simp only [if_neg (Nat.not_le.mpr hlt), if_pos hlt, hval, hmin, hmax]
    split
    · next hlimit =>
      refine iff_of_false (fun h => nomatch h) fun h => ?_
      rcases hlimit with rfl | rfl
      · exact h.2.2 rfl
      · exact h.2.1 rfl
    · next hlimit => exact iff_of_true rfl ⟨hlt, fun h => hlimit (Or.inr h), fun h => hlimit (Or.inl h)⟩
  · have hlimit : ¬(ULONG_MAX = LLONG_MIN ∨ ULONG_MAX = LLONG_MAX) := by decide
    simp only [if_pos (Nat.le_of_not_lt hlt), if_neg hlt, if_neg hlimit]
    exact iff_of_false (fun h => nomatch h) fun h => hlt h.1

/-- Whatever white space is around it, the number that `strtoul` reads is taken over. -/
theorem read_val_from_buf_toDigits (hbefore : ∀ c ∈ before, isspace c = true)
    (hafter : ∀ c ∈ after, isspace c = true) (hdup : ∀ buf, lib.g_strdup buf = some buf) {tspec : Bool}
    (hclock : tspec = true → lib.clock_gettime ≠ none) (n : ℕ) :
    (read_val_from_buf lib (before ++ (Nat.toDigits 10 n ++ after)) .TYPE_UINT64 tspec).uint64 = accepted n := by
  obtain ⟨before', after', hstrip, hbefore', hafter'⟩ := g_strstrip_toDigits hbefore hafter n
  have hclock' : ¬(tspec = true ∧ lib.clock_gettime = none) := fun h => hclock h.1 h.2
  rw [read_val_from_buf, if_neg hclock', hdup]
  simp only [convert_buf, hstrip, strtoul_toDigits hbefore' (fun _ => isDigit_not_isspace) (digit_of_spaces hafter')
    (Or.inl rfl), accepted]
  generalize (if 2 ^ 64 ≤ n then ULONG_MAX else UInt64.ofNat n) = val
  split
  · rfl
  · rfl

end Numeral

end pwrapi
