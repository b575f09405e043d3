import Mathlib.Data.Nat.Bitwise
import Mathlib.Tactic.Common

namespace pwrapi.x86

abbrev BITBLOCK_WIDTH : ℕ := 64

/-- `BITBLOCK_INDEX`. -/
def bitblock_index (bit : ℕ) : ℕ := bit / BITBLOCK_WIDTH

/-- `BITBLOCK_NUM`. -/
def bitblock_num (bits : ℕ) : ℕ := bitblock_index bits + 1

/-- `BITBLOCK_MASK`. -/
def bitblock_mask (bit : ℕ) : UInt64 := 1 <<< UInt64.ofNat (bit % BITBLOCK_WIDTH)

/-- `bitmask_t`, with the blocks that `new_bitmask` allocates for it. -/
structure Bitmask where
  used : UInt64
  bitblock : List UInt64
  allocated : bitblock.length = bitblock_num used.toNat
  deriving DecidableEq

/-- `new_bitmask`. -/
def new_bitmask (bits : UInt64) : Option Bitmask :=
  if bits < 1 then none
  else some ⟨bits, List.replicate (bitblock_num bits.toNat) 0, List.length_replicate⟩

namespace Bitmask

/-- `BITMASK_SET`. -/
def set (mask : Bitmask) (bit : ℕ) : Bitmask :=
  { mask with
    bitblock := mask.bitblock.modify (bitblock_index bit) (· ||| bitblock_mask bit)
    allocated := by rw [List.length_modify, mask.allocated] }

/-- `BITMASK_CLEAR`. -/
def clear (mask : Bitmask) (bit : ℕ) : Bitmask :=
  { mask with
    bitblock := mask.bitblock.modify (bitblock_index bit) (· &&& ~~~bitblock_mask bit)
    allocated := by rw [List.length_modify, mask.allocated] }

/-- `BITMASK_TEST`. -/
def test (mask : Bitmask) (bit : ℕ) : Bool :=
  match mask.bitblock[bitblock_index bit]? with
  | some block => block &&& bitblock_mask bit ≠ 0
  | none => false

/-- `BITMASK_CLEARALL`. -/
def clear_all (mask : Bitmask) : Bitmask :=
  { mask with
    bitblock := List.replicate (bitblock_num mask.used.toNat) 0
    allocated := List.length_replicate }

variable {mask : Bitmask} {bit n : ℕ}

@[simp] theorem used_set (mask : Bitmask) (bit : ℕ) : (mask.set bit).used = mask.used := rfl

@[simp] theorem used_clear (mask : Bitmask) (bit : ℕ) : (mask.clear bit).used = mask.used := rfl

@[simp] theorem used_clear_all (mask : Bitmask) : mask.clear_all.used = mask.used := rfl

theorem toNat_bitblock_mask (bit : ℕ) : (bitblock_mask bit).toNat = 2 ^ (bit % BITBLOCK_WIDTH) := by
  have hlt : bit % BITBLOCK_WIDTH < 64 := Nat.mod_lt _ (by decide)
  have hpow : 2 ^ (bit % BITBLOCK_WIDTH) < 2 ^ 64 := Nat.pow_lt_pow_right (by decide) hlt
  have hword : bit % BITBLOCK_WIDTH < 2 ^ 64 := Nat.lt_trans hlt (by decide)
  rw [bitblock_mask, UInt64.toNat_shiftLeft, UInt64.toNat_ofNat', Nat.mod_eq_of_lt hword, Nat.mod_eq_of_lt hlt,
    UInt64.toNat_one, Nat.one_shiftLeft, Nat.mod_eq_of_lt hpow]

theorem and_bitblock_mask_ne_zero (block : UInt64) (bit : ℕ) :
    block &&& bitblock_mask bit ≠ 0 ↔ block.toNat.testBit (bit % BITBLOCK_WIDTH) := by
  rw [ne_eq, ← UInt64.toNat_inj, UInt64.toNat_and, toNat_bitblock_mask, Nat.and_two_pow, UInt64.toNat_zero]
  cases block.toNat.testBit (bit % BITBLOCK_WIDTH) <;> simp

theorem test_eq (mask : Bitmask) (bit : ℕ) : mask.test bit =
    ((mask.bitblock[bitblock_index bit]?).any fun block => block.toNat.testBit (bit % BITBLOCK_WIDTH)) := by
  rw [test]
  cases mask.bitblock[bitblock_index bit]? with
  | none => rfl
  | some block =>
    rw [Bool.eq_iff_iff]
    simpa using and_bitblock_mask_ne_zero block bit

/-- The bits below the size are in the allocated blocks. -/
theorem bitblock_index_lt (h : bit < mask.used.toNat) : bitblock_index bit < mask.bitblock.length := by
  rw [mask.allocated, bitblock_num]
  exact Nat.lt_succ_of_le (Nat.div_le_div_right (Nat.le_of_lt h))

/-- A bit is given by its block and its place there. -/
theorem eq_iff_index_mod :
    n = bit ↔ bitblock_index bit = bitblock_index n ∧ n % BITBLOCK_WIDTH = bit % BITBLOCK_WIDTH := by
  have hwidth : BITBLOCK_WIDTH = 64 := rfl
  rw [bitblock_index, bitblock_index, hwidth]
  omega

/-- What changes one place of a block changes one bit of the mask. -/
theorem test_modify {f : UInt64 → UInt64} {v : Bool} {mask' : Bitmask} (h : bit < mask.used.toNat)
    (hf : ∀ block : UInt64, ∀ k < 64, (f block).toNat.testBit k =
      if k = bit % BITBLOCK_WIDTH then v else block.toNat.testBit k)
    (hmask' : mask'.bitblock = mask.bitblock.modify (bitblock_index bit) f) :
    mask'.test n = if n = bit then v else mask.test n := by
  simp only [test_eq, hmask', List.getElem?_modify]
  by_cases hsame : bitblock_index bit = bitblock_index n
  · obtain ⟨block, hblock⟩ : ∃ block, mask.bitblock[bitblock_index bit]? = some block :=
      ⟨_, List.getElem?_eq_getElem (bitblock_index_lt h)⟩
    rw [hsame] at hblock
    have hplace : n % BITBLOCK_WIDTH < 64 := Nat.mod_lt _ (by decide)
    have hbit : n = bit ↔ n % BITBLOCK_WIDTH = bit % BITBLOCK_WIDTH := by
      rw [eq_iff_index_mod, and_iff_right hsame]
    simp only [hsame, if_true, hblock, Option.map_eq_map, Option.map_some, Option.any_some, hf block _ hplace, hbit]
  · have hne : n ≠ bit := fun heq => hsame (eq_iff_index_mod.mp heq).1
    simp only [hsame, if_false, hne]
    cases mask.bitblock[bitblock_index n]? <;> rfl

/-- Setting a bit of the mask sets it and no other. -/
theorem test_set (h : bit < mask.used.toNat) : (mask.set bit).test n = (decide (n = bit) || mask.test n) := by
  rw [test_modify h (v := true) (fun block k _ => ?_) rfl]
  · split <;> simp [*]
  · rw [UInt64.toNat_or, toNat_bitblock_mask, Nat.testBit_or, Nat.testBit_two_pow]
    split <;> simp [*, eq_comm]

/-- Clearing a bit of the mask clears it and no other. -/
theorem test_clear (h : bit < mask.used.toNat) : (mask.clear bit).test n = (!decide (n = bit) && mask.test n) := by
  rw [test_modify h (v := false) (fun block k hk => ?_) rfl]
  · split <;> simp [*]
  · have hlt : bit % BITBLOCK_WIDTH < 64 := Nat.mod_lt _ (by decide)
    have hpow : 2 ^ (bit % BITBLOCK_WIDTH) < 2 ^ 64 := Nat.pow_lt_pow_right (by decide) hlt
    have hnot : (~~~bitblock_mask bit).toNat = 2 ^ 64 - (2 ^ (bit % BITBLOCK_WIDTH) + 1) := by
      rw [UInt64.toNat_not, toNat_bitblock_mask, UInt64.size]
      omega
    rw [UInt64.toNat_and, hnot, Nat.testBit_and, Nat.testBit_two_pow_sub_succ hpow, Nat.testBit_two_pow]
    split <;> simp [*, eq_comm]

theorem test_clear_all (mask : Bitmask) (n : ℕ) : mask.clear_all.test n = false := by
  rw [test_eq, clear_all, List.getElem?_replicate]
  split_ifs
  · simp
  · rfl

end Bitmask

end pwrapi.x86
