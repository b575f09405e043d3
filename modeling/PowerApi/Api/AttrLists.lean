import PowerApi.Api.Statistics
import PowerApi.X86.Bitmask

open pwrapi.x86

namespace pwrapi

abbrev PWR_NUM_OBJ_TYPES : Int := 11

/-- The number of hardware threads in `PWR_ObjType`. -/
abbrev PWR_OBJ_HT : Int := 10

/-- `attr_name`. -/
def attr_name : List String :=
  ["PWR_ATTR_PSTATE", "PWR_ATTR_CSTATE", "PWR_ATTR_CSTATE_LIMIT", "PWR_ATTR_SSTATE", "PWR_ATTR_CURRENT",
   "PWR_ATTR_VOLTAGE", "PWR_ATTR_POWER", "PWR_ATTR_POWER_LIMIT_MIN", "PWR_ATTR_POWER_LIMIT_MAX", "PWR_ATTR_FREQ",
   "PWR_ATTR_FREQ_REQ", "PWR_ATTR_FREQ_LIMIT_MIN", "PWR_ATTR_FREQ_LIMIT_MAX", "PWR_ATTR_ENERGY", "PWR_ATTR_TEMP",
   "PWR_ATTR_OS_ID", "PWR_ATTR_THROTTLED_TIME", "PWR_ATTR_THROTTLED_COUNT", "PWR_ATTR_GOV"]

/-- `DECLARE_BITMASK_AUTO` of the bits of some attributes. -/
def attr_bitmask (attrs : List PwrAttrName) : Bitmask :=
  ⟨19, [attrs.foldr (fun attr mask => bitblock_mask attr.raw.toNat ||| mask) 0], rfl⟩

def node_attr_bitmask : Bitmask := attr_bitmask [.POWER, .POWER_LIMIT_MAX, .ENERGY, .OS_ID]

def socket_attr_bitmask : Bitmask :=
  attr_bitmask [.POWER, .POWER_LIMIT_MAX, .ENERGY, .TEMP, .OS_ID, .THROTTLED_TIME]

def mem_attr_bitmask : Bitmask := attr_bitmask [.POWER, .POWER_LIMIT_MAX, .ENERGY, .OS_ID, .THROTTLED_TIME]

def pplane_attr_bitmask : Bitmask := attr_bitmask [.POWER, .ENERGY, .OS_ID]

def core_attr_bitmask : Bitmask := attr_bitmask [.TEMP, .OS_ID]

def ht_attr_bitmask : Bitmask :=
  attr_bitmask [.CSTATE_LIMIT, .FREQ, .FREQ_REQ, .FREQ_LIMIT_MIN, .FREQ_LIMIT_MAX, .OS_ID, .GOV]

def supported_attr_bitmask : Bitmask :=
  attr_bitmask [.POWER, .POWER_LIMIT_MAX, .CSTATE_LIMIT, .FREQ, .FREQ_REQ, .FREQ_LIMIT_MIN, .FREQ_LIMIT_MAX,
    .ENERGY, .TEMP, .OS_ID, .THROTTLED_TIME, .GOV]

def bitmask_num_set (bitmask : Bitmask) : ℕ :=
  (List.range bitmask.used.toNat).foldl (fun num i => if bitmask.test i then num + 1 else num) 0

/-- The memory from the start of the caller's two arrays on, where they are given. A name
that is read behind the table of names is not known. -/
structure AttrArrays where
  str_list : Option (ℕ → Option String)
  val_list : Option (ℕ → Int)

/-- What `get_attr_list` stores for an attribute. -/
def AttrArrays.store (arrays : AttrArrays) (set bit : ℕ) : AttrArrays where
  val_list := arrays.val_list.map fun val_list => Function.update val_list set (Int.ofNat bit)
  str_list := arrays.str_list.map fun str_list => Function.update str_list set attr_name[bit]?

/-- The loop of `get_attr_list` over the bits that are left, with the bit it ends at. -/
def get_attr_list_loop (bitmask : Bitmask) (len : ℕ) : ℕ → ℕ → ℕ → AttrArrays → ℕ × AttrArrays
  | 0, bit, _, arrays => (bit, arrays)
  | left + 1, bit, set, arrays =>
    if set < len then
      if bitmask.test bit then get_attr_list_loop bitmask len left (bit + 1) (set + 1) (arrays.store set bit)
      else get_attr_list_loop bitmask len left (bit + 1) set arrays
    else (bit, arrays)

def get_attr_list (bitmask : Bitmask) (len : ℕ) (arrays : AttrArrays) : Int × AttrArrays :=
  match get_attr_list_loop bitmask len bitmask.used.toNat 0 0 arrays with
  | (bit, arrays) => (if bit < bitmask.used.toNat then PWR_RET_WARN_TRUNC else PWR_RET_SUCCESS, arrays)

def CRAYPWR_AttrGetCount (obj : Int) : Int × Option ℕ :=
  if obj ≥ PWR_NUM_OBJ_TYPES then (PWR_RET_OUT_OF_RANGE, none)
  else if obj < 0 then (PWR_RET_SUCCESS, some (bitmask_num_set supported_attr_bitmask))
  else
    match obj with
    | 4 => (PWR_RET_SUCCESS, some (bitmask_num_set node_attr_bitmask))
    | 5 => (PWR_RET_SUCCESS, some (bitmask_num_set socket_attr_bitmask))
    | 6 => (PWR_RET_SUCCESS, some (bitmask_num_set core_attr_bitmask))
    | 7 => (PWR_RET_SUCCESS, some (bitmask_num_set pplane_attr_bitmask))
    | 8 => (PWR_RET_SUCCESS, some (bitmask_num_set mem_attr_bitmask))
    | 10 => (PWR_RET_SUCCESS, some (bitmask_num_set ht_attr_bitmask))
    | _ => (PWR_RET_NO_ATTRIB, none)

def CRAYPWR_AttrGetList (obj : Int) (len : ℕ) (arrays : AttrArrays) : Int × AttrArrays :=
  if obj ≥ PWR_NUM_OBJ_TYPES then (PWR_RET_OUT_OF_RANGE, arrays)
  else if obj < 0 then get_attr_list supported_attr_bitmask len arrays
  else
    match obj with
    | 4 => get_attr_list node_attr_bitmask len arrays
    | 5 => get_attr_list socket_attr_bitmask len arrays
    | 6 => get_attr_list core_attr_bitmask len arrays
    | 7 => get_attr_list pplane_attr_bitmask len arrays
    | 8 => get_attr_list mem_attr_bitmask len arrays
    | 10 => get_attr_list ht_attr_bitmask len arrays
    | _ => (PWR_RET_NO_ATTRIB, arrays)

/-- The attributes of a mask, in increasing order. -/
def attributes (bitmask : Bitmask) : List ℕ := (List.range bitmask.used.toNat).filter fun bit => bitmask.test bit

/-- The arrays begin with the given attributes, and are as before behind them. -/
structure Filled (listed : List ℕ) (before after : AttrArrays) : Prop where
  val_list : after.val_list = before.val_list.map fun old i => (listed[i]?.map Int.ofNat).getD (old i)
  str_list : after.str_list = before.str_list.map fun old i => (listed[i]?.map fun bit => attr_name[bit]?).getD (old i)

/-- A listing has the lowest attributes that fit, and a warning exactly if one does not fit. -/
structure ListsLowest (bitmask : Bitmask) (len : ℕ) (before : AttrArrays) (result : Int × AttrArrays) : Prop where
  filled : Filled ((attributes bitmask).take len) before result.2
  status : result.1 = if len < (attributes bitmask).length then PWR_RET_WARN_TRUNC else PWR_RET_SUCCESS

section Loop

variable {bitmask : Bitmask} {len : ℕ}

theorem bitmask_num_set_eq (bitmask : Bitmask) : bitmask_num_set bitmask = (attributes bitmask).length := by
  have hcount (bits : List ℕ) (num : ℕ) :
      bits.foldl (fun num i => if bitmask.test i then num + 1 else num) num =
        num + (bits.filter fun bit => bitmask.test bit).length := by
    induction bits generalizing num with
    | nil => rfl
    | cons bit rest ih =>
      rw [List.foldl_cons, ih, List.filter_cons]
      split_ifs
      · rw [List.length_cons, Nat.add_assoc, Nat.add_comm 1]
      · rfl
  rw [bitmask_num_set, hcount, Nat.zero_add, attributes]

/-- The attributes are stored one behind the other. -/
def AttrArrays.store_all (arrays : AttrArrays) : ℕ → List ℕ → AttrArrays
  | _, [] => arrays
  | set, bit :: rest => (arrays.store set bit).store_all (set + 1) rest

/-- The attributes among the bits from one on. -/
def attributes_from (bitmask : Bitmask) (bit left : ℕ) : List ℕ :=
  (List.range' bit left).filter fun bit => bitmask.test bit

theorem attributes_from_succ (bitmask : Bitmask) (bit left : ℕ) : attributes_from bitmask bit (left + 1) =
    if bitmask.test bit then bit :: attributes_from bitmask (bit + 1) left
    else attributes_from bitmask (bit + 1) left := by
  rw [attributes_from, List.range'_succ, List.filter_cons]
  rfl

/-- The loop stores what fits. -/
theorem get_attr_list_loop_arrays (left bit set : ℕ) (arrays : AttrArrays) :
    (get_attr_list_loop bitmask len left bit set arrays).2 =
      arrays.store_all set ((attributes_from bitmask bit left).take (len - set)) := by
  induction left generalizing bit set arrays with
  | zero => simp [get_attr_list_loop, attributes_from, AttrArrays.store_all]
  | succ left ih =>
    rw [get_attr_list_loop, attributes_from_succ]
    by_cases hset : set < len
    · have hroom : len - set = len - (set + 1) + 1 := by omega
      by_cases htest : bitmask.test bit = true
      · rw [if_pos hset, if_pos htest, if_pos htest, ih, hroom, List.take_succ_cons]
        rfl
      · rw [if_pos hset, if_neg htest, if_neg htest, ih]
    · have hfull : len - set = 0 := by omega
      rw [if_neg hset, hfull, List.take_zero]
      rfl

/-- Where no attribute is left, the last bit is clear. -/
theorem test_last_of_nil {bit left : ℕ} (h : attributes_from bitmask bit (left + 1) = []) :
    bitmask.test (bit + left) = false := by
  have hclear := List.filter_eq_nil_iff.mp h (bit + left) (by simp)
  simpa using hclear

/-- Where the loop ends: before the last bit if there is an attribute without room, or if
the last attribute took the last room and was not at the last bit. -/
theorem get_attr_list_loop_bit (left bit set : ℕ) (arrays : AttrArrays) (hset : set ≤ len) :
    (get_attr_list_loop bitmask len left bit set arrays).1 < bit + left ↔
      len - set < (attributes_from bitmask bit left).length ∨
        (len - set = (attributes_from bitmask bit left).length ∧ left ≠ 0 ∧
          bitmask.test (bit + left - 1) = false) := by
  induction left generalizing bit set arrays with
  | zero => simp [get_attr_list_loop, attributes_from]
  | succ left ih =>
    have hlast : bit + (left + 1) - 1 = bit + left := by omega
    have hnext : bit + (left + 1) = bit + 1 + left := by omega
    have hzero : attributes_from bitmask (bit + 1) 0 = [] := rfl
    rw [get_attr_list_loop, hlast]
    by_cases hroom : set < len
    · rw [if_pos hroom, attributes_from_succ, hnext]
      have hleft : len - set = len - (set + 1) + 1 := by omega
      have hbit (left : ℕ) : bit + 1 + (left + 1) - 1 = bit + (left + 1) := by omega
      by_cases htest : bitmask.test bit = true
      · rw [if_pos htest, if_pos htest, ih _ _ _ hroom, List.length_cons, hleft, Nat.add_lt_add_iff_right,
          Nat.add_right_cancel_iff]
        cases left with
        | zero => simp [htest]
        | succ left => simp [hbit]
      · rw [if_neg htest, if_neg htest, ih _ _ _ hset]
        cases left with
        | zero => simp [hzero, hleft]
        | succ left => simp [hbit]
    · have hfull : len - set = 0 := by omega
      rw [if_neg hroom, hfull]
      refine iff_of_true (by omega) ?_
      cases hattrs : attributes_from bitmask bit (left + 1) with
      | nil => exact Or.inr ⟨rfl, Nat.succ_ne_zero left, test_last_of_nil hattrs⟩
      | cons attr rest => exact Or.inl (Nat.succ_pos _)

/-- What is stored one behind the other is found in the arrays from its first place on. -/
theorem store_all_eq (arrays : AttrArrays) (set : ℕ) (listed : List ℕ) : arrays.store_all set listed =
    { val_list := arrays.val_list.map fun old i =>
        if i < set then old i else (listed[i - set]?.map Int.ofNat).getD (old i)
      str_list := arrays.str_list.map fun old i =>
        if i < set then old i else (listed[i - set]?.map fun bit => attr_name[bit]?).getD (old i) } := by
  induction listed generalizing arrays set with
  | nil => simp [AttrArrays.store_all]
  | cons bit rest ih =>
    have hplace {α : Type} (f : ℕ → α) (old : ℕ → α) (i : ℕ) :
        (if i < set + 1 then Function.update old set (f bit) i
          else (rest[i - (set + 1)]?.map f).getD (Function.update old set (f bit) i)) =
        if i < set then old i else ((bit :: rest)[i - set]?.map f).getD (old i) := by
      obtain hlt | rfl | hgt := Nat.lt_trichotomy i set
      · have hne : i ≠ set := Nat.ne_of_lt hlt
        simp [hlt, Nat.lt_succ_of_lt hlt, hne]
      · simp
      · have hne : i ≠ set := Nat.ne_of_gt hgt
        have hge : ¬i < set + 1 := by omega
        have hback : i - set = i - (set + 1) + 1 := by omega
        simp [hge, Nat.not_lt_of_lt hgt, hne, hback]
    have hvals := hplace Int.ofNat
    have hnames := hplace fun bit => attr_name[bit]?
    rw [AttrArrays.store_all, ih]
    simp only [AttrArrays.store, Option.map_map, Function.comp_def, hvals, hnames]

theorem attributes_eq (bitmask : Bitmask) : attributes bitmask = attributes_from bitmask 0 bitmask.used.toNat := by
  rw [attributes, attributes_from, List.range_eq_range']

/-- Whatever the length, the arrays get the lowest attributes that fit, and nothing else is written. -/
theorem get_attr_list_filled (bitmask : Bitmask) (len : ℕ) (arrays : AttrArrays) :
    Filled ((attributes bitmask).take len) arrays (get_attr_list bitmask len arrays).2 := by
  have hstored : (get_attr_list bitmask len arrays).2 = arrays.store_all 0 ((attributes bitmask).take len) := by
    rw [attributes_eq, ← Nat.sub_zero len, ← get_attr_list_loop_arrays]
    rfl
  rw [hstored, store_all_eq]
  exact ⟨by simp, by simp⟩

/-- A listing is right exactly if its length is not the number of attributes, or the last
bit of the mask is set. -/
theorem get_attr_list_iff (bitmask : Bitmask) (len : ℕ) (arrays : AttrArrays) :
    ListsLowest bitmask len arrays (get_attr_list bitmask len arrays) ↔
      len ≠ bitmask_num_set bitmask ∨ bitmask.used = 0 ∨ bitmask.test (bitmask.used.toNat - 1) = true := by
  have hend := @get_attr_list_loop_bit bitmask len bitmask.used.toNat 0 0 arrays (Nat.zero_le len)
  rw [← attributes_eq, Nat.zero_add, Nat.sub_zero] at hend
  have hstatus : (get_attr_list bitmask len arrays).1 =
      if (get_attr_list_loop bitmask len bitmask.used.toNat 0 0 arrays).1 < bitmask.used.toNat then
        PWR_RET_WARN_TRUNC else PWR_RET_SUCCESS := rfl
  have hused : bitmask.used.toNat = 0 ↔ bitmask.used = 0 := by rw [← UInt64.toNat_inj, UInt64.toNat_zero]
  rw [bitmask_num_set_eq]
  constructor
  · rintro ⟨_, hresult⟩
    rw [hstatus] at hresult
    by_contra hcond
    push Not at hcond
    obtain ⟨hlen, hne, htest⟩ := hcond
    have hbefore := hend.mpr (Or.inr ⟨hlen, fun hzero => hne (hused.mp hzero), by simpa using htest⟩)
    rw [if_pos hbefore, if_neg (by omega)] at hresult
    exact absurd hresult (by decide)
  · intro hcond
    refine ⟨get_attr_list_filled bitmask len arrays, ?_⟩
    rw [hstatus]
    refine if_congr (hend.trans ?_) rfl rfl
    refine or_iff_left fun ⟨hlen, hne, hclear⟩ => ?_
    rcases hcond with hother | hzero | htest
    · exact hother hlen
    · exact hne (hused.mpr hzero)
    · rw [hclear] at htest
      cases htest

end Loop

section Types

/-- The mask of an object type, and of all attributes for the types together. -/
def type_bitmask (obj : Int) : Option Bitmask :=
  if obj < 0 then some supported_attr_bitmask
  else
    match obj with
    | 4 => some node_attr_bitmask
    | 5 => some socket_attr_bitmask
    | 6 => some core_attr_bitmask
    | 7 => some pplane_attr_bitmask
    | 8 => some mem_attr_bitmask
    | 10 => some ht_attr_bitmask
    | _ => none

/-- A count and a list of attributes are both made from the mask of the type. -/
theorem type_bitmask_used {obj : Int} {bitmask : Bitmask} (hmask : type_bitmask obj = some bitmask) :
    CRAYPWR_AttrGetCount obj = (PWR_RET_SUCCESS, some (bitmask_num_set bitmask)) ∧
      (∀ len arrays, CRAYPWR_AttrGetList obj len arrays = get_attr_list bitmask len arrays) ∧
      (bitmask.used = 0 ∨ bitmask.test (bitmask.used.toNat - 1) = true ↔ obj < 0 ∨ obj = PWR_OBJ_HT) := by
  unfold type_bitmask at hmask
  by_cases hneg : obj < 0
  · have hrange : ¬obj ≥ PWR_NUM_OBJ_TYPES := by
      have hpos : 0 < PWR_NUM_OBJ_TYPES := by decide
      omega
    rw [if_pos hneg] at hmask
    cases hmask
    refine ⟨?_, fun len arrays => ?_, iff_of_true (by decide) (Or.inl hneg)⟩
    · unfold CRAYPWR_AttrGetCount
      rw [if_neg hrange, if_pos hneg]
    · unfold CRAYPWR_AttrGetList
      rw [if_neg hrange, if_pos hneg]
  · rw [if_neg hneg] at hmask
    split at hmask <;> cases hmask
    all_goals exact ⟨rfl, fun _ _ => rfl, by decide⟩

/-- The types that have no mask have no count. -/
theorem type_bitmask_counted {obj : Int} {count : ℕ}
    (hcount : CRAYPWR_AttrGetCount obj = (PWR_RET_SUCCESS, some count)) :
    ∃ bitmask, type_bitmask obj = some bitmask := by
  have hnone {status : Int} (h : (status, none) = (PWR_RET_SUCCESS, some count)) : False := by
    cases congrArg Prod.snd h
  unfold CRAYPWR_AttrGetCount at hcount
  unfold type_bitmask
  split at hcount
  · exact (hnone hcount).elim
  · split
    · exact ⟨_, rfl⟩
    · next hneg =>
      rw [if_neg hneg] at hcount
      split at hcount
      all_goals first
        | exact ⟨_, rfl⟩
        | exact (hnone hcount).elim

end Types

/-- A listing is right exactly if its length is not the number of attributes in the mask, or
the last bit of the mask is set. With the length that is counted for a type, all attributes
are listed, and this is a success exactly for hardware threads and for all types together. -/
theorem attr_lists_iff (bitmask : Bitmask) (len : ℕ) (arrays : AttrArrays) :
    (ListsLowest bitmask len arrays (get_attr_list bitmask len arrays) ↔
      len ≠ bitmask_num_set bitmask ∨ bitmask.used = 0 ∨ bitmask.test (bitmask.used.toNat - 1) = true) ∧
    ∀ (obj : Int) (count : ℕ), CRAYPWR_AttrGetCount obj = (PWR_RET_SUCCESS, some count) →
      ∃ bitmask, type_bitmask obj = some bitmask ∧ count = (attributes bitmask).length ∧
        Filled (attributes bitmask) arrays (CRAYPWR_AttrGetList obj count arrays).2 ∧
        ((CRAYPWR_AttrGetList obj count arrays).1 = PWR_RET_SUCCESS ↔ obj < 0 ∨ obj = PWR_OBJ_HT) := by
  refine ⟨get_attr_list_iff bitmask len arrays, fun obj count hcount => ?_⟩
  obtain ⟨bitmask, hmask⟩ := type_bitmask_counted hcount
  obtain ⟨hcounted, hlist, hlast⟩ := type_bitmask_used hmask
  obtain rfl : count = bitmask_num_set bitmask := Option.some.inj (congrArg Prod.snd (hcount.symm.trans hcounted))
  have hlen := bitmask_num_set_eq bitmask
  have hall : (attributes bitmask).take (bitmask_num_set bitmask) = attributes bitmask :=
    List.take_of_length_le (Nat.le_of_eq hlen.symm)
  have hfilled := get_attr_list_filled bitmask (bitmask_num_set bitmask) arrays
  rw [hall] at hfilled
  rw [hlist, ← hlast]
  refine ⟨bitmask, hmask, hlen, hfilled, ?_⟩
  have hiff := (get_attr_list_iff bitmask (bitmask_num_set bitmask) arrays).trans (or_iff_right fun hne => hne rfl)
  rw [← hiff]
  constructor
  · intro hsuccess
    refine ⟨by rwa [hall], ?_⟩
    rw [hsuccess, if_neg (by omega)]
  · rintro ⟨_, hstatus⟩
    rw [hstatus, if_neg (by omega)]

/-- Only the numbers are asked for. -/
def number_array : AttrArrays := { str_list := none, val_list := some fun _ => -1 }

theorem attr_lists_hts :
    (CRAYPWR_AttrGetList PWR_OBJ_HT 7 number_array).1 = PWR_RET_SUCCESS ∧
      ListsLowest node_attr_bitmask 3 number_array (get_attr_list node_attr_bitmask 3 number_array) := by
  obtain ⟨hlists, hcounts⟩ := attr_lists_iff node_attr_bitmask 3 number_array
  obtain ⟨_, _, _, _, hstatus⟩ := hcounts PWR_OBJ_HT 7 (by decide)
  exact ⟨hstatus.mpr (Or.inr rfl), hlists.mpr (Or.inl (by decide))⟩

/-- All four attributes of a node fit, and yet the list is said to be cut short. -/
theorem node_list_truncated :
    CRAYPWR_AttrGetCount 4 = (PWR_RET_SUCCESS, some 4) ∧ (attributes node_attr_bitmask).length = 4 ∧
      (CRAYPWR_AttrGetList 4 4 number_array).1 = PWR_RET_WARN_TRUNC ∧
      ¬ListsLowest node_attr_bitmask 4 number_array (CRAYPWR_AttrGetList 4 4 number_array) := by
  refine ⟨by decide, by decide, by decide, fun h => ?_⟩
  exact absurd h.status (by decide)

end pwrapi
