import Mathlib.Algebra.Group.Nat.Defs
import Mathlib.Order.Basic
import Mathlib.Tactic.Common

/-- An IEEE 754 binary64 number, kept as its bit pattern. -/
structure Binary64 where
  bits : UInt64
  deriving DecidableEq, Repr

namespace Binary64

/-- The exponent and fraction fields together. -/
def magnitude (x : Binary64) : Nat := x.bits.toNat % 2 ^ 63

def negative (x : Binary64) : Bool := decide (2 ^ 63 ≤ x.bits.toNat)

/-- The patterns whose magnitude lies above the one of infinity. -/
def is_nan (x : Binary64) : Bool := decide (0x7FF0000000000000 < x.magnitude)

/-- Sign and magnitude read as one integer. Both zeros have key 0, and on the
other patterns that are not NaN the keys are ordered as the numbers are. -/
def key (x : Binary64) : Int := if x.negative then -(x.magnitude : Int) else x.magnitude

/-- The number nearest to an integer, of two the one with the even fraction. A fraction
that is rounded up to the next power of two carries into the exponent. -/
def of_uint64 (n : UInt64) : Binary64 :=
  if n = 0 then ⟨0⟩
  else
    let e := Nat.log2 n.toNat
    let fraction :=
      if e ≤ 52 then n.toNat <<< (52 - e)
      else
        let q := n.toNat >>> (e - 52)
        let r := n.toNat % 2 ^ (e - 52)
        if 2 ^ (e - 53) < r ∨ (r = 2 ^ (e - 53) ∧ q % 2 = 1) then q + 1 else q
    ⟨.ofNat ((1022 + e) * 2 ^ 52 + fraction)⟩

/-- The integer nearest to a fraction, of two the even one. -/
def nearest (p q : Nat) : Nat :=
  if q < 2 * (p % q) ∨ (2 * (p % q) = q ∧ p / q % 2 = 1) then p / q + 1 else p / q

def exponent (x : Binary64) : Nat := x.magnitude / 2 ^ 52

/-- The fraction with the bit in front of it, which the numbers with the least exponent do not have. -/
def significand (x : Binary64) : Nat := x.magnitude % 2 ^ 52 + if x.exponent = 0 then 0 else 2 ^ 52

/-- What `%lf` prints of a number that is not an integer by its exponent: the nearest number of millionths. -/
def millionths (x : Binary64) : Nat := nearest (x.significand * 10 ^ 6) (2 ^ (1075 - max x.exponent 1))

/-- The magnitude of the number nearest to that many millionths. -/
def of_millionths (n : Nat) : Nat :=
  if n = 0 then 0
  else
    -- the power of two below the number is the one of `e - 20`
    let e := Nat.log2 (n * 2 ^ 20 / 10 ^ 6)
    (1002 + e) * 2 ^ 52 + nearest (n * 2 ^ (72 - e)) (10 ^ 6)

/-- The number that is read with `%lf` from what `%lf` prints. The payload of a NaN is not printed. -/
def six_decimals (x : Binary64) : Binary64 :=
  let sign := if x.negative then 2 ^ 63 else 0
  if x.is_nan then ⟨.ofNat (sign + 0x7FF8000000000000)⟩
  else if 1075 ≤ x.exponent then x
  else ⟨.ofNat (sign + of_millionths x.millionths)⟩

/-- The comparison `x == y`, which no NaN passes. -/
def feq (x y : Binary64) : Bool := !x.is_nan && !y.is_nan && decide (x.key = y.key)

/-- The comparison `x < y`, which no NaN passes. -/
def flt (x y : Binary64) : Bool := !x.is_nan && !y.is_nan && decide (x.key < y.key)

theorem feq_iff_key_eq {x y : Binary64} (hx : x.is_nan = false) (hy : y.is_nan = false) :
    x.feq y = true ↔ x.key = y.key := by
  simp [feq, hx, hy]

theorem flt_iff_key_lt {x y : Binary64} (hx : x.is_nan = false) (hy : y.is_nan = false) :
    x.flt y = true ↔ x.key < y.key := by
  simp [flt, hx, hy]

theorem nearest_le (p q : Nat) : nearest p q ≤ p / q + 1 := by
  rw [nearest]
  split
  · exact Nat.le_refl _
  · exact Nat.le_succ _

theorem millionths_le {x : Binary64} (hexponent : x.exponent < 1075) : x.millionths ≤ 2 ^ 53 * 10 ^ 6 := by
  have hsignificand : x.significand ≤ 2 ^ 53 := by
    have hfraction := Nat.mod_lt x.magnitude (Nat.two_pow_pos 52)
    rw [significand]
    split <;> omega
  have htwo : 2 ≤ 2 ^ (1075 - max x.exponent 1) := Nat.le_self_pow (by omega) 2
  have hnearest := nearest_le (x.significand * 10 ^ 6) (2 ^ (1075 - max x.exponent 1))
  have hdiv : x.significand * 10 ^ 6 / 2 ^ (1075 - max x.exponent 1) ≤ x.significand * 10 ^ 6 / 2 :=
    Nat.div_le_div_left htwo (by decide)
  rw [millionths]
  omega

/-- A number of millionths that is printed is read as a finite number. -/
theorem of_millionths_lt {n : Nat} (hn : n ≤ 2 ^ 53 * 10 ^ 6) : of_millionths n < 0x7FF0000000000000 := by
  rw [of_millionths]
  split
  · decide
  · dsimp only
    have hpower : n * 2 ^ 20 / 10 ^ 6 < 2 ^ (Nat.log2 (n * 2 ^ 20 / 10 ^ 6) + 1) := Nat.lt_log2_self
    have hlog : Nat.log2 (n * 2 ^ 20 / 10 ^ 6) < 74 := by
      rcases Nat.eq_zero_or_pos (n * 2 ^ 20 / 10 ^ 6) with hzero | hpos
      · rw [hzero]
        decide
      · rw [Nat.log2_lt (Nat.ne_of_gt hpos)]
        omega
    generalize Nat.log2 (n * 2 ^ 20 / 10 ^ 6) = e at hpower hlog
    have hscaled : n * 2 ^ (72 - e) ≤ 2 ^ 53 * 10 ^ 6 := by
      rcases Nat.lt_or_ge 72 e with hlast | hle
      · rw [Nat.sub_eq_zero_of_le (Nat.le_of_lt hlast)]
        omega
      · have hn' : n * 2 ^ 20 ≤ 2 ^ (e + 1) * 10 ^ 6 := by omega
        have hmul := Nat.mul_le_mul_right (2 ^ (72 - e)) hn'
        have hpow : 2 ^ (e + 1) * 2 ^ (72 - e) = 2 ^ 73 := by rw [← Nat.pow_add]; congr 1; omega
        rw [Nat.mul_right_comm, Nat.mul_right_comm (2 ^ (e + 1)), hpow] at hmul
        omega
    have hnearest := nearest_le (n * 2 ^ (72 - e)) (10 ^ 6)
    omega

/-- A number stays a number when it is printed and read. -/
theorem six_decimals_is_nan {x : Binary64} (hx : x.is_nan = false) : x.six_decimals.is_nan = false := by
  rw [six_decimals, hx, if_neg Bool.false_ne_true]
  split
  · exact hx
  · next hexponent =>
    have hlt := of_millionths_lt (millionths_le (Nat.lt_of_not_le hexponent))
    rw [is_nan, decide_eq_false_iff_not, magnitude, UInt64.toNat_ofNat']
    split <;> omega

/-- 0.1234567, and a number that has no more than six decimals. -/
example : six_decimals ⟨0x3FBF9ADBB8F8DA72⟩ = ⟨0x3FBF9AE0C1765775⟩ ∧
    six_decimals ⟨0x3FB999999999999A⟩ = ⟨0x3FB999999999999A⟩ := by decide

example : feq ⟨0x8000000000000000⟩ ⟨0⟩ = true := by decide

example : of_uint64 10 = ⟨0x4024000000000000⟩ := by decide

/-- Halfway between two numbers. -/
example : of_uint64 (2 ^ 53 + 1) = ⟨0x4340000000000000⟩ ∧ of_uint64 (2 ^ 53 + 3) = ⟨0x4340000000000002⟩ := by decide

example : of_uint64 0xFFFFFFFFFFFFFFFF = ⟨0x43F0000000000000⟩ := by decide

end Binary64
