import Mathlib.Data.Finset.Card
import PowerApi.Api.AttrLists
import PowerApi.Lib.Execution

open Execution

namespace pwrapi.x86

/-- `BITBLOCK_BYTES`. -/
def bitblock_bytes (bits : UInt64) : UInt64 := (bits / 64 + 1) * 8

/-- What `new_bitmask` allocates: a `bitmask_t` has room for one block itself. -/
def bitmask_alloc (bits : UInt64) : UInt64 := 16 - 8 + bitblock_bytes bits

namespace Bitmask

/-- Reading `bitblock[i]`, which must be one of the allocated blocks. -/
def load (mask : Bitmask) (i : ℕ) : Option UInt64 := mask.bitblock[i]?

/-- Writing `bitblock[i]`, which must be one of the allocated blocks. -/
def store (mask : Bitmask) (i : ℕ) (block : UInt64) : Option Bitmask :=
  if i < mask.bitblock.length then
    some { mask with
      bitblock := mask.bitblock.set i block
      allocated := by rw [List.length_set, mask.allocated] }
  else none

/-- `BITMASK_SET`, access by access. -/
def set_access (mask : Bitmask) (bit : ℕ) : Option Bitmask := do
  let block ← mask.load (bitblock_index bit)
  mask.store (bitblock_index bit) (block ||| bitblock_mask bit)

/-- `BITMASK_CLEAR`, access by access. -/
def clear_access (mask : Bitmask) (bit : ℕ) : Option Bitmask := do
  let block ← mask.load (bitblock_index bit)
  mask.store (bitblock_index bit) (block &&& ~~~bitblock_mask bit)

/-- `BITMASK_TEST`, access by access. -/
def test_access (mask : Bitmask) (bit : ℕ) : Option Bool := do
  let block ← mask.load (bitblock_index bit)
  return block &&& bitblock_mask bit ≠ 0

/-- `BITMASK_CLEARALL`, access by access. -/
def clear_all_access (mask : Bitmask) : Option Bitmask :=
  (List.range (bitblock_num mask.used.toNat)).foldlM (fun mask i => mask.store i 0) mask

/-- `bitmask_num_set`, access by access. -/
def num_set_access (mask : Bitmask) : Option ℕ :=
  (List.range mask.used.toNat).foldlM (fun num i => do return if ← mask.test_access i then num + 1 else num) 0

/-- The set of integers that a mask stands for, with all the bits of its blocks. -/
def bits (mask : Bitmask) : Finset ℕ := {bit ∈ Finset.range (mask.bitblock.length * BITBLOCK_WIDTH) | mask.test bit}

end Bitmask

inductive BitmaskOp where
  | set (bit : ℕ)
  | clear (bit : ℕ)
  | test (bit : ℕ)
  | clear_all
  | num_set
  deriving DecidableEq

inductive BitmaskReply where
  | done
  | test (value : Bool)
  | num (num : ℕ)
  deriving DecidableEq

namespace BitmaskOp

/-- An operation with its accesses to the blocks, none of which may lie behind them. -/
def perform : BitmaskOp → Bitmask → Option (BitmaskReply × Bitmask)
  | set bit, mask => (mask.set_access bit).map fun mask => (.done, mask)
  | clear bit, mask => (mask.clear_access bit).map fun mask => (.done, mask)
  | test bit, mask => (mask.test_access bit).map fun value => (.test value, mask)
  | clear_all, mask => mask.clear_all_access.map fun mask => (.done, mask)
  | num_set, mask => mask.num_set_access.map fun num => (.num num, mask)

/-- What the operation is for a set of integers. -/
def on_set : BitmaskOp → Finset ℕ → BitmaskReply × Finset ℕ
  | set bit, bits => (.done, insert bit bits)
  | clear bit, bits => (.done, bits.erase bit)
  | test bit, bits => (.test (bit ∈ bits), bits)
  | clear_all, _ => (.done, ∅)
  | num_set, bits => (.num bits.card, bits)

/-- The operation is on a bit below the size. -/
def Below (size : UInt64) : BitmaskOp → Prop
  | set bit | clear bit | test bit => bit < size.toNat
  | clear_all | num_set => True

instance (size : UInt64) : DecidablePred (Below size)
  | set bit | clear bit | test bit => inferInstanceAs (Decidable (bit < size.toNat))
  | clear_all | num_set => .isTrue trivial

end BitmaskOp

namespace Bitmask

variable {mask : Bitmask} {bit n : ℕ}

theorem ext_bitblock {mask mask' : Bitmask} (hused : mask.used = mask'.used)
    (hblocks : mask.bitblock = mask'.bitblock) : mask = mask' := by
  cases mask
  cases mask'
  subst hused hblocks
  rfl

theorem load_of_lt (h : bit < mask.used.toNat) :
    ∃ block, mask.load (bitblock_index bit) = some block ∧ mask.bitblock[bitblock_index bit]? = some block :=
  ⟨_, List.getElem?_eq_getElem (bitblock_index_lt h), List.getElem?_eq_getElem (bitblock_index_lt h)⟩

/-- What is stored in the place of a block that was read. -/
theorem store_modify {f : UInt64 → UInt64} {i : ℕ} {block : UInt64} {mask' : Bitmask}
    (hblock : mask.bitblock[i]? = some block) (hused : mask'.used = mask.used)
    (hmask' : mask'.bitblock = mask.bitblock.modify i f) : mask.store i (f block) = some mask' := by
  obtain ⟨hi, hget⟩ := List.getElem?_eq_some_iff.mp hblock
  rw [store, if_pos hi]
  refine congrArg some (ext_bitblock hused.symm ?_)
  rw [hmask', List.modify_eq_set, hblock]
  rfl

theorem set_access_eq (h : bit < mask.used.toNat) : mask.set_access bit = some (mask.set bit) := by
  obtain ⟨block, hload, hblock⟩ := load_of_lt h
  rw [set_access, hload]
  exact store_modify (f := (· ||| bitblock_mask bit)) hblock rfl rfl

theorem clear_access_eq (h : bit < mask.used.toNat) : mask.clear_access bit = some (mask.clear bit) := by
  obtain ⟨block, hload, hblock⟩ := load_of_lt h
  rw [clear_access, hload]
  exact store_modify (f := (· &&& ~~~bitblock_mask bit)) hblock rfl rfl

theorem test_access_eq (h : bit < mask.used.toNat) : mask.test_access bit = some (mask.test bit) := by
  obtain ⟨block, hload, hblock⟩ := load_of_lt h
  rw [test_access, hload, test, hblock]
  rfl

/-- The first blocks are cleared one after the other. -/
theorem clear_first (k : ℕ) (hk : k ≤ mask.bitblock.length) :
    ∃ mask', (List.range k).foldlM (fun mask i => store mask i 0) mask = some mask' ∧ mask'.used = mask.used ∧
      mask'.bitblock = List.replicate k 0 ++ mask.bitblock.drop k := by
  induction k with
  | zero => exact ⟨mask, rfl, rfl, rfl⟩
  | succ k ih =>
    obtain ⟨mask', hfold, hused, hblocks⟩ := ih (Nat.le_of_succ_le hk)
    have hroom : k < mask'.bitblock.length := by
      rw [hblocks, List.length_append, List.length_replicate, List.length_drop]
      omega
    refine ⟨⟨mask'.used, mask'.bitblock.set k 0, by rw [List.length_set, mask'.allocated]⟩, ?_, hused, ?_⟩
    · rw [List.range_succ, List.foldlM_append, hfold]
      simp [store, hroom]
    · show mask'.bitblock.set k 0 = _
      rw [hblocks, List.set_append_right _ _ (by simp), List.length_replicate, Nat.sub_self,
        List.drop_eq_getElem_cons hk, List.set_cons_zero, List.replicate_succ', List.append_assoc]
      rfl

theorem clear_all_access_eq (mask : Bitmask) : mask.clear_all_access = some mask.clear_all := by
  obtain ⟨mask', hfold, hused, hblocks⟩ := clear_first mask.bitblock.length (Nat.le_refl _)
  rw [clear_all_access, ← mask.allocated, hfold]
  refine congrArg some (ext_bitblock hused ?_)
  rw [hblocks, List.drop_length, List.append_nil, mask.allocated]
  rfl

theorem num_set_access_eq (mask : Bitmask) : mask.num_set_access = some (bitmask_num_set mask) := by
  have hloop (is : List ℕ) (num : ℕ) (his : ∀ i ∈ is, i < mask.used.toNat) :
      is.foldlM (fun num i => do return if ← mask.test_access i then num + 1 else num) num =
        some (is.foldl (fun num i => if mask.test i then num + 1 else num) num) := by
    induction is generalizing num with
    | nil => rfl
    | cons i rest ih =>
      rw [List.foldlM_cons, test_access_eq (his i List.mem_cons_self), List.foldl_cons]
      exact ih _ fun j hj => his j (List.mem_cons_of_mem i hj)
  exact hloop _ 0 fun i hi => List.mem_range.mp hi

/-- No bit is set behind the blocks. -/
theorem mem_bits : bit ∈ mask.bits ↔ mask.test bit = true := by
  rw [bits, Finset.mem_filter, Finset.mem_range, and_iff_right_iff_imp]
  intro htest
  have hindex : bitblock_index bit < mask.bitblock.length := by
    by_contra hge
    rw [test_eq, List.getElem?_eq_none (Nat.le_of_not_lt hge)] at htest
    cases htest
  exact (Nat.div_lt_iff_lt_mul (by decide)).mp hindex

theorem bits_set (h : bit < mask.used.toNat) : (mask.set bit).bits = insert bit mask.bits := by
  ext n
  rw [mem_bits, test_set h, Finset.mem_insert, mem_bits, Bool.or_eq_true, decide_eq_true_iff]

theorem bits_clear (h : bit < mask.used.toNat) : (mask.clear bit).bits = mask.bits.erase bit := by
  ext n
  rw [mem_bits, test_clear h, Finset.mem_erase, mem_bits, Bool.and_eq_true, Bool.not_eq_true', decide_eq_false_iff_not]

theorem bits_clear_all (mask : Bitmask) : mask.clear_all.bits = ∅ := by
  ext n
  rw [mem_bits, test_clear_all]
  simp

/-- A mask of the given size whose bits are below it. -/
structure Sized (size : UInt64) (mask : Bitmask) : Prop where
  used : mask.used = size
  below : ∀ bit ∈ mask.bits, bit < size.toNat

theorem Sized.num_set (h : mask.Sized mask.used) : bitmask_num_set mask = mask.bits.card := by
  have hbits : mask.bits = {bit ∈ Finset.range mask.used.toNat | mask.test bit} := by
    ext n
    rw [Finset.mem_filter, Finset.mem_range, ← mem_bits]
    exact ⟨fun hn => ⟨h.below n hn, hn⟩, And.right⟩
  have hcard : ({bit ∈ Finset.range mask.used.toNat | mask.test bit} : Finset ℕ).card =
      ((List.range mask.used.toNat).filter fun bit => decide (mask.test bit = true)).length := rfl
  rw [bitmask_num_set_eq, attributes, hbits, hcard]
  simp only [Bool.decide_eq_true]

/-- Every operation on a bit below the size is done with allocated blocks only, and is the one
on the set. -/
theorem Sized.perform {size : UInt64} (h : mask.Sized size) {op : BitmaskOp} (hop : op.Below size) :
    ∃ reply mask', op.perform mask = some (reply, mask') ∧ mask'.Sized size ∧
      op.on_set mask.bits = (reply, mask'.bits) := by
  obtain ⟨rfl, hbelow⟩ := h
  cases op with
  | set bit =>
    refine ⟨.done, mask.set bit, ?_, ⟨rfl, fun n hn => ?_⟩, ?_⟩
    · rw [BitmaskOp.perform, set_access_eq hop]
      rfl
    · rw [bits_set hop] at hn
      rcases Finset.mem_insert.mp hn with rfl | hmem
      · exact hop
      · exact hbelow n hmem
    · rw [bits_set hop]
      rfl
  | clear bit =>
    refine ⟨.done, mask.clear bit, ?_, ⟨rfl, fun n hn => ?_⟩, ?_⟩
    · rw [BitmaskOp.perform, clear_access_eq hop]
      rfl
    · rw [bits_clear hop] at hn
      exact hbelow n (Finset.mem_of_mem_erase hn)
    · rw [bits_clear hop]
      rfl
  | test bit =>
    refine ⟨.test (mask.test bit), mask, ?_, ⟨rfl, hbelow⟩, ?_⟩
    · rw [BitmaskOp.perform, test_access_eq hop]
      rfl
    · rw [BitmaskOp.on_set]
      simp only [mem_bits, Bool.decide_eq_true]
  | clear_all =>
    refine ⟨.done, mask.clear_all, ?_, ⟨rfl, fun n hn => ?_⟩, ?_⟩
    · rw [BitmaskOp.perform, clear_all_access_eq]
      rfl
    · rw [bits_clear_all] at hn
      cases hn
    · rw [bits_clear_all]
      rfl
  | num_set =>
    refine ⟨.num (bitmask_num_set mask), mask, ?_, ⟨rfl, hbelow⟩, ?_⟩
    · rw [BitmaskOp.perform, num_set_access_eq]
      rfl
    · rw [Sized.num_set ⟨rfl, hbelow⟩]
      rfl

end Bitmask

open Bitmask

theorem toNat_bitmask_alloc (size : UInt64) : (bitmask_alloc size).toNat = 8 + 8 * bitblock_num size.toNat := by
  have hlt := size.toNat_lt
  have hwidth : BITBLOCK_WIDTH = 64 := rfl
  rw [bitmask_alloc, bitblock_bytes, bitblock_num, bitblock_index, hwidth]
  simp only [UInt64.toNat_add, UInt64.toNat_mul, UInt64.toNat_div, UInt64.toNat_sub, UInt64.toNat_ofNat,
    Nat.reducePow, Nat.reduceMod, Nat.reduceSub, Nat.reduceAdd]
  omega

/-- A bitmask is a set of integers below its size: for any operations, all blocks they access
are allocated, their replies are those of the set, and the mask stands for the set after each. -/
theorem bitmask_refines_set (size : UInt64) (ops : List BitmaskOp) (hsize : 1 ≤ size)
    (hops : ∀ op ∈ ops, op.Below size) :
    ∃ mask, new_bitmask size = some mask ∧
      (bitmask_alloc size).toNat = 8 + 8 * mask.bitblock.length ∧
      (run_calls BitmaskOp.perform ops mask).map (·.1.1) = ops ∧
      (run_calls BitmaskOp.perform ops mask).map (Prod.map id bits) =
        run_calls (fun op set => some (op.on_set set)) ops ∅ := by
  have hnew : ¬size < 1 := UInt64.not_lt.mpr hsize
  refine ⟨_, if_neg hnew, ?_, ?_⟩
  · rw [toNat_bitmask_alloc, List.length_replicate]
  generalize hmask : Bitmask.mk size (List.replicate (bitblock_num size.toNat) 0) List.length_replicate = mask
  have hempty : mask.bits = ∅ := by
    rw [← bits_clear_all mask, ← hmask]
    rfl
  have hsized : mask.Sized size := by
    refine ⟨by rw [← hmask], fun bit hbit => ?_⟩
    rw [hempty] at hbit
    cases hbit
  have hrun : (run_calls BitmaskOp.perform ops mask).map (Prod.map id bits) =
      run_calls (fun op set => some (op.on_set set)) ops ∅ := by
    rw [← hempty]
    refine run_calls_map hsized fun op hop mask hmask => ?_
    obtain ⟨reply, mask', hperform, hsized', hset⟩ := hmask.perform (hops op hop)
    exact ⟨reply, mask', hperform, hsized', congrArg some hset⟩
  refine ⟨?_, hrun⟩
  calc (run_calls BitmaskOp.perform ops mask).map (·.1.1)
      = ((run_calls BitmaskOp.perform ops mask).map (Prod.map id bits)).map (·.1.1) := by rw [List.map_map]; rfl
    _ = (run_calls (fun op set => some (op.on_set set)) ops ∅).map (·.1.1) := by rw [hrun]
    _ = ops := run_calls_actions BitmaskOp.on_set ∅ ops

/-- The last bits of masks that fill a block and that begin one. -/
theorem bitmask_refines_set_last_bits :
    let ops := [BitmaskOp.set 63, .set 0, .test 63, .num_set, .clear 0, .num_set, .clear_all, .test 63]
    ∀ size ∈ [(64 : UInt64), 65], ∃ mask, new_bitmask size = some mask ∧
      (run_calls BitmaskOp.perform ops mask).map (·.1.2) =
        [.done, .done, .test true, .num 2, .done, .num 1, .done, .test false] := by
  intro ops size hsize
  have hbelow : 1 ≤ size ∧ ∀ op ∈ ops, op.Below size := by
    rcases List.mem_pair.mp hsize with rfl | rfl
    · decide
    · decide
  obtain ⟨mask, hmask, _, _, hrun⟩ := bitmask_refines_set size ops hbelow.1 hbelow.2
  refine ⟨mask, hmask, ?_⟩
  have hreplies := congrArg (List.map (·.1.2)) hrun
  rw [List.map_map] at hreplies
  exact hreplies.trans (by decide)

end pwrapi.x86
