import Mathlib.Data.Char
import Mathlib.Data.List.Lex
import PowerApi.Lib.SortedList

open SortedList

namespace CString

def strcmp : List Char → List Char → Int
  | [], [] => 0
  | [], _ :: _ => -1
  | _ :: _, [] => 1
  | a :: as, b :: bs => if a = b then strcmp as bs else if a < b then -1 else 1

/-- What `snprintf` leaves in a buffer of the given size, of the characters it has to print. -/
def snprintf (size : Nat) (printed : List Char) : List Char := printed.take (size - 1)

/-- The conversion `%lu`. -/
def print_lu (n : UInt64) : List Char := Nat.toDigits 10 n.toNat

theorem strcmp_eq_zero {a b : List Char} : strcmp a b = 0 ↔ a = b := by
  induction a generalizing b with
  | nil => cases b <;> simp [strcmp]
  | cons x as ih =>
    cases b with
    | nil => simp [strcmp]
    | cons y bs =>
      simp only [strcmp, List.cons.injEq]
      split
      · next hxy => rw [ih, and_iff_right hxy]
      · next hxy =>
        simp only [hxy, false_and, iff_false]
        split <;> decide

theorem strcmp_neg {a b : List Char} : strcmp a b < 0 ↔ a < b := by
  induction a generalizing b with
  | nil => cases b <;> simp [strcmp]
  | cons x as ih =>
    cases b with
    | nil => simp [strcmp]
    | cons y bs =>
      simp only [strcmp, List.cons_lt_cons_iff]
      split
      · next hxy =>
        subst hxy
        simp [ih]
      · next hxy =>
        simp only [hxy, false_and, or_false]
        split <;> simp [*]

theorem strcmp_comparesRank : ComparesRank strcmp (fun _ => True) id where
  neg_iff _ _ := strcmp_neg
  zero_iff _ _ := strcmp_eq_zero

theorem snprintf_eq_self {size : Nat} {printed : List Char} (h : printed.length < size) :
    snprintf size printed = printed := List.take_of_length_le (by omega)

theorem toDigits_injective : Function.Injective (Nat.toDigits 10) := by
  intro m n h
  have hvalue := congrArg (fun word => Nat.ofDigitChars 10 word 0) h
  simpa only [Nat.ofDigitChars_ten_toDigits] using hvalue

theorem print_lu_injective : Function.Injective print_lu :=
  fun _ _ h => UInt64.toNat_inj.mp (toDigits_injective h)

/-- The greatest number has twenty digits. -/
theorem length_print_lu_le (n : UInt64) : (print_lu n).length ≤ 20 := by
  refine (Nat.length_toDigits_le_iff (by decide) (by decide)).mpr ?_
  have hlt : n.toNat < 2 ^ 64 := n.toNat_lt
  omega

end CString
