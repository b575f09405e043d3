import Mathlib.Algebra.Order.Field.Basic
import Mathlib.Tactic.Common

/-- What a double can hold when its arithmetic does not round: the numbers of a field, with one
zero, the infinities, and what no operation has a number for. -/
inductive ExactDouble (K : Type*) where
  | fin (x : K)
  | inf
  | neg_inf
  | nan
  deriving DecidableEq

namespace ExactDouble

variable {K : Type*} [Field K] [LinearOrder K]

/-- The infinity with the sign of a number. Zero has no sign to give. -/
def signed_inf (x : K) : ExactDouble K := if x = 0 then nan else if 0 < x then inf else neg_inf

protected def neg : ExactDouble K → ExactDouble K
  | fin x => fin (-x)
  | inf => neg_inf
  | neg_inf => inf
  | nan => nan

protected def add : ExactDouble K → ExactDouble K → ExactDouble K
  | fin x, fin y => fin (x + y)
  | nan, _ | _, nan | inf, neg_inf | neg_inf, inf => nan
  | inf, _ | _, inf => inf
  | neg_inf, _ | _, neg_inf => neg_inf

protected def mul : ExactDouble K → ExactDouble K → ExactDouble K
  | fin x, fin y => fin (x * y)
  | nan, _ | _, nan => nan
  | fin x, inf | inf, fin x => signed_inf x
  | fin x, neg_inf | neg_inf, fin x => signed_inf (-x)
  | inf, inf | neg_inf, neg_inf => inf
  | inf, neg_inf | neg_inf, inf => neg_inf

protected def div : ExactDouble K → ExactDouble K → ExactDouble K
  | fin x, fin y => if y = 0 then signed_inf x else fin (x / y)
  | nan, _ | _, nan => nan
  | fin _, _ => fin 0
  | inf, fin y => if 0 ≤ y then inf else neg_inf
  | neg_inf, fin y => if 0 ≤ y then neg_inf else inf
  | _, _ => nan

/-- The comparison `x < y`. -/
def flt : ExactDouble K → ExactDouble K → Bool
  | fin x, fin y => decide (x < y)
  | fin _, inf | neg_inf, fin _ | neg_inf, inf => true
  | _, _ => false

/-- The function `sqrt`, with the root it has of a number that is not negative. -/
def fsqrt (sqrt : K → K) : ExactDouble K → ExactDouble K
  | fin x => if x < 0 then nan else fin (sqrt x)
  | inf => inf
  | neg_inf | nan => nan

instance : Zero (ExactDouble K) := ⟨fin 0⟩
instance : One (ExactDouble K) := ⟨fin 1⟩
instance : Neg (ExactDouble K) := ⟨ExactDouble.neg⟩
instance : Add (ExactDouble K) := ⟨ExactDouble.add⟩
instance : Sub (ExactDouble K) := ⟨fun x y => x + -y⟩
instance : Mul (ExactDouble K) := ⟨ExactDouble.mul⟩
instance : Div (ExactDouble K) := ⟨ExactDouble.div⟩

section Sums

omit [LinearOrder K]

variable (x y : K)

@[simp] theorem zero_eq_fin : (0 : ExactDouble K) = fin 0 := rfl

@[simp] theorem one_eq_fin : (1 : ExactDouble K) = fin 1 := rfl

@[simp] theorem fin_add_fin : fin x + fin y = fin (x + y) := rfl

@[simp] theorem fin_sub_fin : fin x - fin y = fin (x - y) := by
  rw [sub_eq_add_neg]
  rfl

end Sums

section Comparisons

omit [Field K]

variable (x y : K)

@[simp] theorem flt_fin_fin : flt (fin x) (fin y) = decide (x < y) := rfl

@[simp] theorem flt_fin_inf : flt (fin x) inf = true := rfl

@[simp] theorem flt_neg_inf_fin : flt neg_inf (fin x) = true := rfl

end Comparisons

@[simp] theorem fin_mul_fin (x y : K) : fin x * fin y = fin (x * y) := rfl

theorem fin_div_fin {x y : K} (hy : y ≠ 0) : fin x / fin y = fin (x / y) := if_neg hy

theorem zero_div_zero : (fin 0 / fin 0 : ExactDouble K) = nan :=
  (if_pos rfl).trans (if_pos rfl)

theorem fsqrt_fin {sqrt : K → K} {x : K} (hx : 0 ≤ x) : fsqrt sqrt (fin x) = fin (sqrt x) :=
  if_neg (not_lt.mpr hx)

end ExactDouble
