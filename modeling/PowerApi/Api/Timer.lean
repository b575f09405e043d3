import Mathlib.Algebra.Group.Int.Defs
import Mathlib.Algebra.Group.Nat.Defs
import PowerApi.Types

namespace pwrapi

/-- `struct timespec`. -/
structure Timespec where
  tv_sec : Int64
  tv_nsec : Int64
  deriving DecidableEq, Repr

/-- `pwr_tspec_add`. `NSEC_PER_SEC` is unsigned, and so is what is compared with it. -/
def pwr_tspec_add (a b : Timespec) : Timespec :=
  let res : Timespec := { tv_sec := a.tv_sec + b.tv_sec, tv_nsec := a.tv_nsec + b.tv_nsec }
  if res.tv_nsec.toUInt64 > NSEC_PER_SEC then
    { tv_sec := res.tv_sec + 1, tv_nsec := (res.tv_nsec.toUInt64 - NSEC_PER_SEC).toInt64 }
  else res

def pwr_tspec_sub (a b : Timespec) : Timespec :=
  let res : Timespec := { tv_sec := a.tv_sec - b.tv_sec, tv_nsec := a.tv_nsec - b.tv_nsec }
  if a.tv_nsec < b.tv_nsec then
    { tv_sec := res.tv_sec - 1, tv_nsec := (res.tv_nsec.toUInt64 + NSEC_PER_SEC).toInt64 }
  else res

def pwr_tspec_to_nsec (ts : Timespec) : UInt64 := ts.tv_sec.toUInt64 * NSEC_PER_SEC + ts.tv_nsec.toUInt64

namespace Timespec

def Normalised (ts : Timespec) : Prop := 0 ≤ ts.tv_nsec.toInt ∧ ts.tv_nsec.toInt < 10 ^ 9

/-- The time in nanoseconds, which need not fit into 64 bits. -/
def total (ts : Timespec) : Int := ts.tv_sec.toInt * 10 ^ 9 + ts.tv_nsec.toInt

end Timespec

/-- The number of seconds fits into `time_t`. -/
def SecondsFit (sec : Int) : Prop := -2 ^ 63 ≤ sec ∧ sec < 2 ^ 63

open Timespec

/-- Sums and differences are normalised and have the right totals, and subtraction undoes addition. -/
structure TimesRight (a b : Timespec) : Prop where
  add_normalised : (pwr_tspec_add a b).Normalised
  add_total : (pwr_tspec_add a b).total = a.total + b.total
  add_nsec : pwr_tspec_to_nsec (pwr_tspec_add a b) = pwr_tspec_to_nsec a + pwr_tspec_to_nsec b
  sub_normalised : b.total ≤ a.total → (pwr_tspec_sub a b).Normalised
  sub_total : b.total ≤ a.total → SecondsFit (a.tv_sec.toInt - b.tv_sec.toInt) →
    (pwr_tspec_sub a b).total = a.total - b.total
  add_sub : pwr_tspec_sub (pwr_tspec_add a b) b = a

section Sum

variable {a b : Timespec}

theorem toInt_add_eq {x y : Int64} (h : SecondsFit (x.toInt + y.toInt)) : (x + y).toInt = x.toInt + y.toInt := by
  rw [Int64.toInt_add]
  exact Int.bmod_eq_of_le h.1 h.2

theorem toInt_sub_eq {x y : Int64} (h : SecondsFit (x.toInt - y.toInt)) : (x - y).toInt = x.toInt - y.toInt := by
  rw [Int64.toInt_sub]
  exact Int.bmod_eq_of_le h.1 h.2

/-- The nanoseconds of two normalised times do not overflow. -/
theorem nsec_add (ha : a.Normalised) (hb : b.Normalised) :
    (a.tv_nsec + b.tv_nsec).toInt = a.tv_nsec.toInt + b.tv_nsec.toInt := by
  obtain ⟨ha0, ha1⟩ := ha
  obtain ⟨hb0, hb1⟩ := hb
  exact toInt_add_eq ⟨by omega, by omega⟩

theorem nsec_sub (ha : a.Normalised) (hb : b.Normalised) :
    (a.tv_nsec - b.tv_nsec).toInt = a.tv_nsec.toInt - b.tv_nsec.toInt := by
  obtain ⟨ha0, ha1⟩ := ha
  obtain ⟨hb0, hb1⟩ := hb
  exact toInt_sub_eq ⟨by omega, by omega⟩

/-- Where the nanoseconds are not negative, the unsigned comparison is the one of their values. -/
theorem toUInt64_gt_iff {x : Int64} (hx : 0 ≤ x.toInt) : x.toUInt64 > NSEC_PER_SEC ↔ 10 ^ 9 < x.toInt := by
  have hle : 0 ≤ x := Int64.le_iff_toInt_le.mpr hx
  have hnat : x.toUInt64.toNat = x.toInt.toNat := Int64.toNat_toUInt64_of_le hle
  have hsec : NSEC_PER_SEC.toNat = 10 ^ 9 := rfl
  rw [gt_iff_lt, UInt64.lt_iff_toNat_lt, hnat, hsec]
  omega

theorem pwr_tspec_add_eq (ha : a.Normalised) (hb : b.Normalised) : pwr_tspec_add a b =
    if 10 ^ 9 < a.tv_nsec.toInt + b.tv_nsec.toInt then
      { tv_sec := a.tv_sec + b.tv_sec + 1, tv_nsec := a.tv_nsec + b.tv_nsec - 1000000000 }
    else { tv_sec := a.tv_sec + b.tv_sec, tv_nsec := a.tv_nsec + b.tv_nsec } := by
  have hsum := nsec_add ha hb
  have hiff : (a.tv_nsec + b.tv_nsec).toUInt64 > NSEC_PER_SEC ↔ 10 ^ 9 < a.tv_nsec.toInt + b.tv_nsec.toInt := by
    rw [toUInt64_gt_iff (by rw [hsum]; exact Int.add_nonneg ha.1 hb.1), hsum]
  simp only [pwr_tspec_add, hiff]
  rfl

theorem pwr_tspec_sub_eq (a b : Timespec) : pwr_tspec_sub a b =
    if a.tv_nsec.toInt < b.tv_nsec.toInt then
      { tv_sec := a.tv_sec - b.tv_sec - 1, tv_nsec := a.tv_nsec - b.tv_nsec + 1000000000 }
    else { tv_sec := a.tv_sec - b.tv_sec, tv_nsec := a.tv_nsec - b.tv_nsec } := by
  simp only [pwr_tspec_sub, Int64.lt_iff_toInt_lt]
  rfl

/-- The nanoseconds that are carried are those of one second. -/
theorem add_nsec_eq (ha : a.Normalised) (hb : b.Normalised) :
    pwr_tspec_to_nsec (pwr_tspec_add a b) = pwr_tspec_to_nsec a + pwr_tspec_to_nsec b := by
  rw [pwr_tspec_add_eq ha hb]
  split
  · simp only [pwr_tspec_to_nsec, Int64.toUInt64_add, Int64.toUInt64_sub]
    have hone : (1 : Int64).toUInt64 = 1 := rfl
    have hsec : (1000000000 : Int64).toUInt64 = NSEC_PER_SEC := rfl
    rw [hone, hsec]
    grind
  · simp only [pwr_tspec_to_nsec, Int64.toUInt64_add]
    grind

/-- What is left of the nanoseconds where a second is carried. -/
theorem toInt_carried (ha : a.Normalised) (hb : b.Normalised) :
    (a.tv_nsec + b.tv_nsec - 1000000000).toInt = a.tv_nsec.toInt + b.tv_nsec.toInt - 10 ^ 9 := by
  have hsum := nsec_add ha hb
  have hsec : (1000000000 : Int64).toInt = 10 ^ 9 := rfl
  obtain ⟨ha0, ha1⟩ := ha
  obtain ⟨hb0, hb1⟩ := hb
  rw [toInt_sub_eq ⟨by rw [hsum, hsec]; omega, by rw [hsum, hsec]; omega⟩, hsum, hsec]

theorem toInt_borrowed (ha : a.Normalised) (hb : b.Normalised) :
    (a.tv_nsec - b.tv_nsec + 1000000000).toInt = a.tv_nsec.toInt - b.tv_nsec.toInt + 10 ^ 9 := by
  have hdiff := nsec_sub ha hb
  have hsec : (1000000000 : Int64).toInt = 10 ^ 9 := rfl
  obtain ⟨ha0, ha1⟩ := ha
  obtain ⟨hb0, hb1⟩ := hb
  rw [toInt_add_eq ⟨by rw [hdiff, hsec]; omega, by rw [hdiff, hsec]; omega⟩, hdiff, hsec]

/-- What was carried is borrowed again. -/
theorem add_sub_eq (ha : a.Normalised) (hb : b.Normalised) : pwr_tspec_sub (pwr_tspec_add a b) b = a := by
  rw [pwr_tspec_add_eq ha hb, pwr_tspec_sub_eq]
  split
  · have hborrow : (a.tv_nsec + b.tv_nsec - 1000000000).toInt < b.tv_nsec.toInt := by
      rw [toInt_carried ha hb]
      have hlt := ha.2
      omega
    rw [if_pos hborrow]
    have hsec : a.tv_sec + b.tv_sec + 1 - b.tv_sec - 1 = a.tv_sec := by grind
    have hnsec : a.tv_nsec + b.tv_nsec - 1000000000 - b.tv_nsec + 1000000000 = a.tv_nsec := by grind
    rw [hsec, hnsec]
  · have hkept : ¬(a.tv_nsec + b.tv_nsec).toInt < b.tv_nsec.toInt := by
      rw [nsec_add ha hb]
      have hpos := ha.1
      omega
    rw [if_neg hkept, Int64.add_sub_cancel, Int64.add_sub_cancel]

/-- The total is right where the seconds of the sum fit. -/
theorem add_total_eq (ha : a.Normalised) (hb : b.Normalised)
    (hfit : SecondsFit (a.tv_sec.toInt + b.tv_sec.toInt)) (hsum : SecondsFit ((a.total + b.total) / 10 ^ 9)) :
    (pwr_tspec_add a b).total = a.total + b.total := by
  rw [pwr_tspec_add_eq ha hb]
  split
  · next hcarry =>
    have hone : (1 : Int64).toInt = 1 := rfl
    have hadd := toInt_add_eq hfit
    have hsec : (a.tv_sec + b.tv_sec + 1).toInt = a.tv_sec.toInt + b.tv_sec.toInt + 1 := by
      obtain ⟨hlow, _⟩ := hfit
      obtain ⟨_, hhigh⟩ := hsum
      simp only [total] at hhigh
      rw [toInt_add_eq ⟨by rw [hadd, hone]; omega, by rw [hadd, hone]; omega⟩, hadd, hone]
    simp only [total, hsec, toInt_carried ha hb]
    omega
  · simp only [total, toInt_add_eq hfit, nsec_add ha hb]
    omega

theorem sub_total_eq (ha : a.Normalised) (hb : b.Normalised) (hle : b.total ≤ a.total)
    (hfit : SecondsFit (a.tv_sec.toInt - b.tv_sec.toInt)) : (pwr_tspec_sub a b).total = a.total - b.total := by
  rw [pwr_tspec_sub_eq]
  split
  · next hborrow =>
    have hone : (1 : Int64).toInt = 1 := rfl
    have hsub := toInt_sub_eq hfit
    have hsec : (a.tv_sec - b.tv_sec - 1).toInt = a.tv_sec.toInt - b.tv_sec.toInt - 1 := by
      obtain ⟨_, hhigh⟩ := hfit
      simp only [total] at hle
      rw [toInt_sub_eq ⟨by rw [hsub, hone]; omega, by rw [hsub, hone]; omega⟩, hsub, hone]
    simp only [total, hsec, toInt_borrowed ha hb]
    omega
  · simp only [total, toInt_sub_eq hfit, nsec_sub ha hb]
    omega

theorem sub_normalised (ha : a.Normalised) (hb : b.Normalised) : (pwr_tspec_sub a b).Normalised := by
  rw [pwr_tspec_sub_eq]
  split
  · next hborrow =>
    show 0 ≤ (a.tv_nsec - b.tv_nsec + 1000000000).toInt ∧ (a.tv_nsec - b.tv_nsec + 1000000000).toInt < 10 ^ 9
    rw [toInt_borrowed ha hb]
    obtain ⟨ha0, _⟩ := ha
    obtain ⟨_, hb1⟩ := hb
    omega
  · next hkept =>
    show 0 ≤ (a.tv_nsec - b.tv_nsec).toInt ∧ (a.tv_nsec - b.tv_nsec).toInt < 10 ^ 9
    rw [nsec_sub ha hb]
    obtain ⟨_, ha1⟩ := ha
    obtain ⟨hb0, _⟩ := hb
    omega

/-- Where the nanoseconds are those of exactly one second, none is carried. -/
theorem add_normalised_iff (ha : a.Normalised) (hb : b.Normalised) :
    (pwr_tspec_add a b).Normalised ↔ a.tv_nsec.toInt + b.tv_nsec.toInt ≠ 10 ^ 9 := by
  rw [pwr_tspec_add_eq ha hb]
  obtain ⟨ha0, ha1⟩ := id ha
  obtain ⟨hb0, hb1⟩ := id hb
  split
  · next hcarry =>
    show 0 ≤ (a.tv_nsec + b.tv_nsec - 1000000000).toInt ∧ (a.tv_nsec + b.tv_nsec - 1000000000).toInt < 10 ^ 9 ↔ _
    rw [toInt_carried ha hb]
    omega
  · next hkept =>
    show 0 ≤ (a.tv_nsec + b.tv_nsec).toInt ∧ (a.tv_nsec + b.tv_nsec).toInt < 10 ^ 9 ↔ _
    rw [nsec_add ha hb]
    omega

/-- Times are added and subtracted right exactly if their nanoseconds are not those of one second. -/
theorem pwr_tspec_times_right_iff (ha : a.Normalised) (hb : b.Normalised)
    (hfit : SecondsFit (a.tv_sec.toInt + b.tv_sec.toInt)) (hsum : SecondsFit ((a.total + b.total) / 10 ^ 9)) :
    TimesRight a b ↔ a.tv_nsec.toInt + b.tv_nsec.toInt ≠ 10 ^ 9 := by
  constructor
  · exact fun hright => (add_normalised_iff ha hb).mp hright.add_normalised
  · intro hne
    exact { add_normalised := (add_normalised_iff ha hb).mpr hne
            add_total := add_total_eq ha hb hfit hsum
            add_nsec := add_nsec_eq ha hb
            sub_normalised := fun _ => sub_normalised ha hb
            sub_total := fun hle hdiff => sub_total_eq ha hb hle hdiff
            add_sub := add_sub_eq ha hb }

theorem pwr_tspec_times_right_carry : TimesRight ⟨3, 700000000⟩ ⟨1, 900000000⟩ :=
  (pwr_tspec_times_right_iff ⟨by decide, by decide⟩ ⟨by decide, by decide⟩ ⟨by decide, by decide⟩
    ⟨by decide, by decide⟩).mpr (by decide)

/-- Two half seconds are no whole one. -/
theorem half_seconds_not_carried : ¬∀ a b : Timespec, a.Normalised → b.Normalised →
    SecondsFit (a.tv_sec.toInt + b.tv_sec.toInt) → SecondsFit ((a.total + b.total) / 10 ^ 9) → TimesRight a b := by
  intro hclaim
  have hright := hclaim ⟨0, 500000000⟩ ⟨0, 500000000⟩ ⟨by decide, by decide⟩ ⟨by decide, by decide⟩
    ⟨by decide, by decide⟩ ⟨by decide, by decide⟩
  exact absurd hright.add_normalised.2 (by decide)

end Sum

end pwrapi
