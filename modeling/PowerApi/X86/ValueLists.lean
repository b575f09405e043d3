import Mathlib.Order.Bounds.Basic
import PowerApi.Lib.Execution
import PowerApi.Lib.GrowingArray
import PowerApi.X86.Metadata

open Execution

namespace pwrapi.value_lists

variable {α : Type}

/-- Whether a call gets the memory for a larger array and for a copy of its string. -/
structure Memory where
  realloc : Bool
  strdup : Bool
  deriving DecidableEq

/-- `pwr_list_uint64_t` with its array. -/
structure PwrListUint64 where
  array : GrowingArray UInt64 := {}
  value_len : ℕ := 0
  min : UInt64 := 0
  max : UInt64 := 0
  deriving DecidableEq

/-- `pwr_list_string_t` with its array. -/
structure PwrListStrings where
  array : GrowingArray String := {}
  value_len : ℕ := 0
  deriving DecidableEq

/-- The first lines of all functions that add a value: the array is reallocated if it is full. -/
def reserve (memory : Memory) (array : GrowingArray α) : Option (GrowingArray α) :=
  if array.num ≥ array.alloc then
    if memory.realloc then some (array.grow 20) else none
  else some array

/-- The minimum and the maximum take in the value. -/
def record_extrema (list : PwrListUint64) (val : UInt64) : PwrListUint64 :=
  if list.array.num = 0 then { list with min := val, max := val }
  else if val < list.min then { list with min := val }
  else if val > list.max then { list with max := val }
  else list

/-- The length of the values takes in a printed value. -/
def record_len (value_len len : ℕ) : ℕ := if len ≥ value_len then len + 1 else value_len

def pwr_list_add_uint64 (memory : Memory) (list : PwrListUint64) (val : UInt64) : Option (Int × PwrListUint64) :=
  match reserve memory list.array with
  | none => some (PWR_RET_FAILURE, list)
  | some array =>
    let list := record_extrema { list with array } val
    let list := { list with value_len := record_len list.value_len (toString val).utf8ByteSize }
    (list.array.append val).map fun array => (PWR_RET_SUCCESS, { list with array })

def pwr_list_add_string (memory : Memory) (list : PwrListStrings) (str : String) : Option (Int × PwrListStrings) :=
  match reserve memory list.array with
  | none => some (PWR_RET_FAILURE, list)
  | some array =>
    let list := { list with array }
    if memory.strdup then
      let list := { list with value_len := record_len list.value_len str.utf8ByteSize }
      (list.array.append str).map fun array => (PWR_RET_SUCCESS, { list with array })
    else some (PWR_RET_FAILURE, list)

def pwr_compare_uint64 (a b : UInt64) : Int :=
  if a < b then -1
  else if a > b then 1
  else 0

def pwr_list_sort_uint64 (list : PwrListUint64) : Option PwrListUint64 :=
  list.array.contents.map fun vals =>
    { list with array := list.array.overwrite (vals.insertionSort fun a b => pwr_compare_uint64 a b ≤ 0) }

/-- `pwr_list_value_at_index_uint64`, for the pointers that are given. -/
def pwr_list_value_at_index_uint64 (list : PwrListUint64) (index : UInt32) (value value_str : Bool) :
    Option MetaAnswer :=
  if index.toNat ≥ list.array.num then some { status := PWR_RET_BAD_INDEX }
  else (list.array.get index.toNat).map fun ival =>
    { status := PWR_RET_SUCCESS
      value := if value then some (.uint64 ival) else none
      value_str := if value_str then some (toString ival) else none }

/-- `pwr_list_value_at_index_string`, for the pointers that are given. -/
def pwr_list_value_at_index_string (list : PwrListStrings) (index : UInt32) (value value_str : Bool)
    (string_to_value : Option (String → UInt64)) : Option MetaAnswer :=
  if index.toNat ≥ list.array.num then some { status := PWR_RET_BAD_INDEX }
  else (list.array.get index.toNat).map fun str =>
    if value ∧ string_to_value = none then { status := PWR_RET_FAILURE }
    else
      { status := PWR_RET_SUCCESS
        value := if value then string_to_value.map fun f => .uint64 (f str) else none
        value_str := if value_str then some str else none }

/-- The longest of the printed values needs one byte less than the length. -/
def LongestPrinted (print : α → String) (vals : List α) (value_len : ℕ) : Prop :=
  (vals = [] ∧ value_len = 0) ∨
    IsGreatest ((fun val => (print val).utf8ByteSize + 1) '' {val | val ∈ vals}) value_len

/-- The extrema of the values, which are of interest where there are any. -/
def Extrema (vals : List UInt64) (min max : UInt64) : Prop :=
  vals ≠ [] → IsLeast (UInt64.toNat '' {val | val ∈ vals}) min.toNat ∧
    IsGreatest (UInt64.toNat '' {val | val ∈ vals}) max.toNat

/-- An answer is made for every index, of a value in the list where the call can be served: the
value as it is asked for and as it is printed. What is printed fits into the length of the list. -/
def AnswersFit (print : α → String) (asked : α → Option MetaValue) (vals : List α) (value_len : ℕ) (served : Prop)
    (answer : UInt32 → Option MetaAnswer) : Prop :=
  ∀ index, ∃ ans, answer index = some ans ∧
    (ans.status = PWR_RET_SUCCESS ↔ index.toNat < vals.length ∧ served) ∧
    (ans.status = PWR_RET_SUCCESS → ans.value = vals[index.toNat]?.bind asked ∧
      ans.value_str = vals[index.toNat]?.map print) ∧
    ∀ text, ans.value_str = some text →
      vals[index.toNat]?.map print = some text ∧ text.utf8ByteSize + 1 ≤ value_len

/-- What a value of a list of unsigned numbers is answered with, where it is asked for. -/
def asked_uint64 (value : Bool) (val : UInt64) : Option MetaValue := if value then some (.uint64 val) else none

/-- What a string of a list is answered with, where its value is asked for. -/
def asked_string (value : Bool) (string_to_value : Option (String → UInt64)) (str : String) : Option MetaValue :=
  if value then string_to_value.map fun f => .uint64 (f str) else none

/-- The values of a list of unsigned numbers, with their extrema. -/
structure Uint64Right (vals : List UInt64) (list : PwrListUint64) : Prop where
  holds : list.array.Holds vals
  capacity : list.array.num ≤ list.array.alloc
  extrema : Extrema vals list.min list.max
  value_len : LongestPrinted toString vals list.value_len
  answers : ∀ value, AnswersFit toString (asked_uint64 value) vals list.value_len True
    fun index => pwr_list_value_at_index_uint64 list index value true

structure StringsRight (vals : List String) (list : PwrListStrings) : Prop where
  holds : list.array.Holds vals
  capacity : list.array.num ≤ list.array.alloc
  value_len : LongestPrinted id vals list.value_len
  answers : ∀ value string_to_value,
    AnswersFit id (asked_string value string_to_value) vals list.value_len (value = true → string_to_value ≠ none)
      fun index => pwr_list_value_at_index_string list index value true string_to_value

section Lists

/-- The list without its array. -/
structure Uint64Represents (list : PwrListUint64) (pure : PwrList UInt64) : Prop where
  holds : list.array.Holds pure.list
  value_len : list.value_len = pure.value_len
  min : list.min = pure.min
  max : list.max = pure.max

structure StringsRepresents (list : PwrListStrings) (pure : PwrListString) : Prop where
  holds : list.array.Holds pure.list
  value_len : list.value_len = pure.value_len

variable {array : GrowingArray α} {vals : List α}

/-- Where the array is not full or memory is to be had, there is room for one more value. -/
theorem reserve_holds (h : array.Holds vals) (memory : Memory) :
    (reserve memory array = none ∧ memory.realloc = false) ∨
      ∃ array', reserve memory array = some array' ∧ array'.Holds vals ∧ array'.num < array'.alloc := by
  unfold reserve
  by_cases hfull : array.num ≥ array.alloc
  · cases hmemory : memory.realloc with
    | false => exact Or.inl ⟨by simp [hfull], rfl⟩
    | true =>
      refine Or.inr ⟨array.grow 20, by simp [hfull], h.grow 20, ?_⟩
      have hle := h.num_le
      show array.num < array.alloc + 20
      omega
  · exact Or.inr ⟨array, if_neg hfull, h, Nat.lt_of_not_ge hfull⟩

theorem record_extrema_eq (list : PwrListUint64) (val : UInt64) : record_extrema list val =
    { list with
      min := if list.array.num = 0 ∨ val < list.min then val else list.min
      max :=
        if list.array.num = 0 then val
        else if val < list.min then list.max
        else if list.max < val then val
        else list.max } := by
  unfold record_extrema
  split
  · next hzero => simp [hzero]
  · next hpos =>
    split
    · next hlt => simp [hpos, hlt]
    · next hge =>
      simp only [hpos, hge, or_self, if_false, gt_iff_lt]
      split <;> rfl

/-- A value is added to the list or, without memory, the list stays. -/
theorem pwr_list_add_uint64_represents {list : PwrListUint64} {pure : PwrList UInt64}
    (h : Uint64Represents list pure) (memory : Memory) (val : UInt64) :
    ∃ status list', pwr_list_add_uint64 memory list val = some (status, list') ∧
      (memory.realloc = true → status = PWR_RET_SUCCESS) ∧
      Uint64Represents list' (if status = PWR_RET_SUCCESS then pwrapi.pwr_list_add_uint64 pure val else pure) := by
  have hfailure : ¬PWR_RET_FAILURE = PWR_RET_SUCCESS := by decide
  unfold pwr_list_add_uint64
  obtain ⟨hnone, hmemory⟩ | ⟨array, hreserve, hholds, hroom⟩ := reserve_holds h.holds memory
  · rw [hnone]
    refine ⟨PWR_RET_FAILURE, list, rfl, fun hrealloc => ?_, ?_⟩
    · rw [hmemory] at hrealloc
      cases hrealloc
    · rwa [if_neg hfailure]
  · obtain ⟨array', happend, hadded⟩ := hholds.append hroom val
    rw [hreserve]
    simp only [record_extrema_eq, happend, Option.map_some]
    refine ⟨PWR_RET_SUCCESS, _, rfl, fun _ => rfl, ?_⟩
    rw [if_pos rfl, hholds.num, h.value_len, h.min, h.max]
    refine ⟨hadded, rfl, ?_, ?_⟩
    · simp only [pwrapi.pwr_list_add_uint64, pwr_list_add, decide_eq_true_eq]
    · simp only [pwrapi.pwr_list_add_uint64, pwr_list_add, decide_eq_true_eq]

theorem pwr_list_add_string_represents {list : PwrListStrings} {pure : PwrListString}
    (h : StringsRepresents list pure) (memory : Memory) (str : String) :
    ∃ status list', pwr_list_add_string memory list str = some (status, list') ∧
      (memory.realloc = true ∧ memory.strdup = true → status = PWR_RET_SUCCESS) ∧
      StringsRepresents list' (if status = PWR_RET_SUCCESS then pwrapi.pwr_list_add_string pure str else pure) := by
  have hfailure : ¬PWR_RET_FAILURE = PWR_RET_SUCCESS := by decide
  unfold pwr_list_add_string
  obtain ⟨hnone, hmemory⟩ | ⟨array, hreserve, hholds, hroom⟩ := reserve_holds h.holds memory
  · rw [hnone]
    refine ⟨PWR_RET_FAILURE, list, rfl, fun hgranted => ?_, ?_⟩
    · rw [hmemory] at hgranted
      cases hgranted.1
    · rwa [if_neg hfailure]
  · rw [hreserve]
    cases hdup : memory.strdup with
    | false =>
      refine ⟨PWR_RET_FAILURE, { list with array }, rfl, fun hgranted => (nomatch hgranted.2), ?_⟩
      rw [if_neg hfailure]
      exact ⟨hholds, h.value_len⟩
    | true =>
      obtain ⟨array', happend, hadded⟩ := hholds.append hroom str
      simp only [if_true, happend, Option.map_some]
      refine ⟨PWR_RET_SUCCESS, _, rfl, fun _ => rfl, ?_⟩
      rw [if_pos rfl]
      exact ⟨hadded, congrArg (fun len => record_len len str.utf8ByteSize) h.value_len⟩

end Lists

section Values

variable {val : α} {vals : List α} {print : α → String} {len : ℕ}

theorem image_concat {β : Type} (f : α → β) (vals : List α) (val : α) :
    f '' {v | v ∈ vals ++ [val]} = insert (f val) (f '' {v | v ∈ vals}) := by
  rw [← Set.image_insert_eq]
  congr 1
  ext v
  simp [or_comm]

theorem LongestPrinted.concat (h : LongestPrinted print vals len) (val : α) :
    LongestPrinted print (vals ++ [val]) (record_len len (print val).utf8ByteSize) := by
  refine Or.inr ?_
  rw [image_concat]
  have hmax : record_len len (print val).utf8ByteSize = max ((print val).utf8ByteSize + 1) len := by
    unfold record_len
    split <;> omega
  rw [hmax]
  rcases h with ⟨rfl, rfl⟩ | hgreatest
  · simp
  · exact hgreatest.insert _

theorem LongestPrinted.le (h : LongestPrinted print vals len) (hval : val ∈ vals) :
    (print val).utf8ByteSize + 1 ≤ len := by
  rcases h with ⟨rfl, _⟩ | hgreatest
  · cases hval
  · exact hgreatest.2 ⟨val, hval, rfl⟩

theorem LongestPrinted.perm {vals' : List α} (h : LongestPrinted print vals len) (hperm : vals'.Perm vals) :
    LongestPrinted print vals' len := by
  have hset : {v | v ∈ vals'} = {v | v ∈ vals} := Set.ext fun v => hperm.mem_iff
  rcases h with ⟨rfl, hzero⟩ | hgreatest
  · exact Or.inl ⟨List.Perm.eq_nil hperm, hzero⟩
  · exact Or.inr (hset ▸ hgreatest)

/-- What a list describes of the values added to it. -/
structure Describes (vals : List UInt64) (list : PwrList UInt64) : Prop where
  values : list.list = vals
  value_len : LongestPrinted toString vals list.value_len
  extrema : Extrema vals list.min list.max

theorem Describes.add {vals : List UInt64} {list : PwrList UInt64} (h : Describes vals list) (val : UInt64) :
    Describes (vals ++ [val]) (pwrapi.pwr_list_add_uint64 list val) := by
  obtain ⟨rfl, hlen, hextrema⟩ := h
  refine ⟨rfl, hlen.concat val, fun _ => ?_⟩
  rw [image_concat]
  by_cases hnil : list.list = []
  · have hzero : list.list.length = 0 := List.length_eq_zero_iff.mpr hnil
    simp [pwrapi.pwr_list_add_uint64, pwr_list_add, hnil]
  · have hzero : list.list.length ≠ 0 := fun h => hnil (List.length_eq_zero_iff.mp h)
    obtain ⟨hleast, hgreatest⟩ := hextrema hnil
    have hle : list.min.toNat ≤ list.max.toNat := hleast.2 hgreatest.1
    have hmin : (pwrapi.pwr_list_add_uint64 list val).min.toNat = min val.toNat list.min.toNat := by
      simp only [pwrapi.pwr_list_add_uint64, pwr_list_add, hzero, false_or, decide_eq_true_eq, UInt64.lt_iff_toNat_lt]
      split <;> omega
    have hmax : (pwrapi.pwr_list_add_uint64 list val).max.toNat = max val.toNat list.max.toNat := by
      simp only [pwrapi.pwr_list_add_uint64, pwr_list_add, hzero, if_false, decide_eq_true_eq,
        UInt64.lt_iff_toNat_lt]
      split
      · omega
      · split <;> omega
    rw [hmin, hmax]
    exact ⟨hleast.insert _, hgreatest.insert _⟩

theorem describes_foldl (vals : List UInt64) :
    Describes vals (vals.foldl pwrapi.pwr_list_add_uint64 { min := 0, max := 0 }) := by
  induction vals using List.reverseRecOn with
  | nil => exact ⟨rfl, Or.inl ⟨rfl, rfl⟩, fun hne => absurd rfl hne⟩
  | append_singleton vals val ih =>
    rw [List.foldl_append]
    exact ih.add val

theorem strings_foldl (vals : List String) :
    (vals.foldl pwrapi.pwr_list_add_string {}).list = vals ∧
      LongestPrinted id vals (vals.foldl pwrapi.pwr_list_add_string {}).value_len := by
  induction vals using List.reverseRecOn with
  | nil => exact ⟨rfl, Or.inl ⟨rfl, rfl⟩⟩
  | append_singleton vals val ih =>
    rw [List.foldl_append]
    exact ⟨congrArg (· ++ [val]) ih.1, ih.2.concat val⟩

theorem Describes.perm {vals vals' : List UInt64} {list : PwrList UInt64} (h : Describes vals list)
    (hperm : vals'.Perm vals) : Describes vals' { list with list := vals' } := by
  have hset : {v | v ∈ vals'} = {v | v ∈ vals} := Set.ext fun v => hperm.mem_iff
  refine ⟨rfl, h.value_len.perm hperm, fun hne => ?_⟩
  rw [hset]
  exact h.extrema fun hnil => hne (List.Perm.eq_nil (hnil ▸ hperm))

theorem pwr_compare_uint64_le_zero {a b : UInt64} : pwr_compare_uint64 a b ≤ 0 ↔ a ≤ b := by
  unfold pwr_compare_uint64
  grind

theorem pwr_compare_uint64_sorts (vals : List UInt64) :
    (vals.insertionSort fun a b => pwr_compare_uint64 a b ≤ 0).Perm vals ∧
      (vals.insertionSort fun a b => pwr_compare_uint64 a b ≤ 0).Pairwise (· ≤ ·) := by
  refine ⟨List.perm_insertionSort _ vals, ?_⟩
  have : Std.Total fun a b : UInt64 => pwr_compare_uint64 a b ≤ 0 :=
    ⟨fun a b => by simpa only [pwr_compare_uint64_le_zero] using UInt64.le_total a b⟩
  have : IsTrans UInt64 fun a b => pwr_compare_uint64 a b ≤ 0 :=
    ⟨fun a b c => by simpa only [pwr_compare_uint64_le_zero] using UInt64.le_trans⟩
  exact (List.pairwise_insertionSort _ vals).imp pwr_compare_uint64_le_zero.mp

/-- The answers fit where those for the values of the list do. -/
theorem answers_fit {print : α → String} {asked : α → Option MetaValue} {vals : List α} {array : GrowingArray α} {value_len : ℕ}
    (hholds : array.Holds vals) (hlen : LongestPrinted print vals value_len) {served : Prop} {answer : α → MetaAnswer}
    (hstatus : ∀ val, (answer val).status = PWR_RET_SUCCESS ↔ served)
    (hanswer : ∀ val, (answer val).status = PWR_RET_SUCCESS →
      (answer val).value = asked val ∧ (answer val).value_str = some (print val))
    (hprint : ∀ val text, (answer val).value_str = some text → print val = text) :
    AnswersFit print asked vals value_len served fun index =>
      if index.toNat ≥ array.num then some { status := PWR_RET_BAD_INDEX } else (array.get index.toNat).map answer := by
  intro index
  simp only [hholds.num]
  by_cases hindex : index.toNat ≥ vals.length
  · have hbad : ¬PWR_RET_BAD_INDEX = PWR_RET_SUCCESS := by decide
    rw [if_pos hindex]
    refine ⟨_, rfl, iff_of_false hbad fun hserved => Nat.not_lt.mpr hindex hserved.1,
      fun hsuccess => absurd hsuccess hbad, fun text htext => ?_⟩
    cases htext
  · have hlt := Nat.lt_of_not_le hindex
    rw [if_neg hindex, hholds.get (hholds.num ▸ hlt), List.getElem?_eq_getElem hlt]
    refine ⟨_, rfl, (hstatus _).trans (and_iff_right hlt).symm, hanswer _, fun text htext => ?_⟩
    obtain rfl := hprint _ text htext
    exact ⟨rfl, hlen.le (List.getElem_mem hlt)⟩

theorem uint64_answers {vals : List UInt64} {list : PwrListUint64} (hholds : list.array.Holds vals)
    (hlen : LongestPrinted toString vals list.value_len) (value : Bool) :
    AnswersFit toString (asked_uint64 value) vals list.value_len True
      fun index => pwr_list_value_at_index_uint64 list index value true :=
  answers_fit hholds hlen (fun _ => iff_of_true rfl trivial) (fun _ _ => ⟨rfl, rfl⟩) fun _ _ => Option.some.inj

theorem string_answers {vals : List String} {list : PwrListStrings} (hholds : list.array.Holds vals)
    (hlen : LongestPrinted id vals list.value_len) (value : Bool) (string_to_value : Option (String → UInt64)) :
    AnswersFit id (asked_string value string_to_value) vals list.value_len (value = true → string_to_value ≠ none)
      fun index => pwr_list_value_at_index_string list index value true string_to_value := by
  have hfailure : ¬PWR_RET_FAILURE = PWR_RET_SUCCESS := by decide
  refine answers_fit hholds hlen (fun val => ?_) (fun val hsuccess => ?_) fun val text htext => ?_
  · split
    · next hvalue => exact iff_of_false hfailure fun hserved => hserved hvalue.1 hvalue.2
    · next hvalue => exact iff_of_true rfl fun hgiven hnone => hvalue ⟨hgiven, hnone⟩
  · split at hsuccess
    · exact absurd hsuccess hfailure
    · next hvalue =>
      rw [if_neg hvalue]
      exact ⟨rfl, rfl⟩
  · split at htext
    · cases htext
    · exact Option.some.inj htext

/-- What a list without its array describes is right of the list. -/
theorem Uint64Represents.right {vals : List UInt64} {list : PwrListUint64} {pure : PwrList UInt64}
    (h : Uint64Represents list pure) (hdescribes : Describes vals pure) : Uint64Right vals list := by
  obtain ⟨hholds, hlen, hmin, hmax⟩ := h
  obtain ⟨rfl, hprinted, hextrema⟩ := hdescribes
  rw [← hmin, ← hmax] at hextrema
  rw [← hlen] at hprinted
  exact ⟨hholds, hholds.num_le, hextrema, hprinted, uint64_answers hholds hprinted⟩

/-- The list is sorted as it is without its array. -/
theorem pwr_list_sort_uint64_represents {list : PwrListUint64} {pure : PwrList UInt64}
    (h : Uint64Represents list pure) :
    ∃ sorted, pwr_list_sort_uint64 list = some sorted ∧
      Uint64Represents sorted (pwrapi.pwr_list_sort_uint64 pure) ∧
      (pwrapi.pwr_list_sort_uint64 pure).list.Perm pure.list ∧
      (pwrapi.pwr_list_sort_uint64 pure).list.Pairwise (· ≤ ·) := by
  have hsort : (pwrapi.pwr_list_sort_uint64 pure).list =
      pure.list.insertionSort fun a b => pwr_compare_uint64 a b ≤ 0 := by
    simp only [pwrapi.pwr_list_sort_uint64, pwr_list_sort, pwr_compare_uint64_le_zero, decide_eq_false_iff_not,
      UInt64.not_lt]
  obtain ⟨hperm, hsorted⟩ := pwr_compare_uint64_sorts pure.list
  rw [pwr_list_sort_uint64, h.holds.contents, hsort]
  refine ⟨_, rfl, ⟨?_, h.value_len, h.min, h.max⟩, hperm, hsorted⟩
  rw [hsort]
  exact h.holds.overwrite hperm.length_eq

end Values

/-- A call that adds a value. -/
structure AddCall (α : Type) where
  memory : Memory
  val : α

def AddCall.uint64 (call : AddCall UInt64) (list : PwrListUint64) : Option (Int × PwrListUint64) :=
  pwr_list_add_uint64 call.memory list call.val

def AddCall.string (call : AddCall String) (list : PwrListStrings) : Option (Int × PwrListStrings) :=
  pwr_list_add_string call.memory list call.val

/-- The memory for the call is to be had. -/
def AddCall.Granted (call : AddCall α) : Prop := call.memory.realloc = true ∧ call.memory.strdup = true

/-- The values whose calls succeeded. -/
def added {σ : Type} (run : List ((AddCall α × Int) × σ)) : List α :=
  run.filterMap fun step => if step.1.2 = PWR_RET_SUCCESS then some step.1.1.val else none

theorem added_cons {σ : Type} (call : AddCall α) (status : Int) (s : σ) (run : List ((AddCall α × Int) × σ)) :
    added (((call, status), s) :: run) = if status = PWR_RET_SUCCESS then call.val :: added run else added run := by
  unfold added
  split
  · next hstatus => exact List.filterMap_cons_some (if_pos hstatus)
  · next hstatus => exact List.filterMap_cons_none (if_neg hstatus)

/-- Calls that each keep what a state stands for keep it in a run. -/
theorem run_calls_represents {σ τ : Type} {perform : AddCall α → σ → Option (Int × σ)} {add : τ → α → τ}
    (Represents : σ → τ → Prop)
    (hadd : ∀ call s t, Represents s t → ∃ status s', perform call s = some (status, s') ∧
      (call.Granted → status = PWR_RET_SUCCESS) ∧ Represents s' (if status = PWR_RET_SUCCESS then add t call.val else t))
    (calls : List (AddCall α)) {s : σ} {t : τ} (h : Represents s t) :
    (run_calls perform calls s).map (·.1.1) = calls ∧
      ((∀ call ∈ calls, call.Granted) → added (run_calls perform calls s) = calls.map AddCall.val) ∧
      Represents (final s (run_calls perform calls s)) ((added (run_calls perform calls s)).foldl add t) := by
  induction calls generalizing s t with
  | nil => exact ⟨rfl, fun _ => rfl, h⟩
  | cons call rest ih =>
    obtain ⟨status, s', hperform, hgranted, hrepresents⟩ := hadd call s t h
    obtain ⟨hcalls, hall, hfinal⟩ := ih hrepresents
    have hrun : run_calls perform (call :: rest) s = ((call, status), s') :: run_calls perform rest s' := by
      rw [run_calls, hperform]
    rw [hrun, added_cons]
    refine ⟨congrArg (call :: ·) hcalls, fun hgrant => ?_, ?_⟩
    · obtain ⟨hfirst, hrest⟩ := List.forall_mem_cons.mp hgrant
      rw [if_pos (hgranted hfirst), hall hrest, List.map_cons]
    · rw [final_cons]
      split at hfinal
      · next hstatus => rwa [if_pos hstatus, List.foldl_cons]
      · next hstatus => rwa [if_neg hstatus]

/-- After any sequence of values, lists of unsigned numbers and of strings hold those added in
their order, with their extrema and the length that each needs to be printed, and no access lies
outside of their arrays. Sorting the numbers puts them in order. -/
theorem value_lists_right :
    (∀ calls : List (AddCall UInt64), let run := run_calls AddCall.uint64 calls {}
      run.map (·.1.1) = calls ∧ ((∀ call ∈ calls, call.Granted) → added run = calls.map AddCall.val) ∧
      Uint64Right (added run) (final {} run) ∧
      ∃ sorted vals, pwr_list_sort_uint64 (final {} run) = some sorted ∧ vals.Perm (added run) ∧
        vals.Pairwise (· ≤ ·) ∧ Uint64Right vals sorted) ∧
    ∀ calls : List (AddCall String), let run := run_calls AddCall.string calls {}
      run.map (·.1.1) = calls ∧ ((∀ call ∈ calls, call.Granted) → added run = calls.map AddCall.val) ∧
      StringsRight (added run) (final {} run) := by
  constructor
  · intro calls
    have hadd (call : AddCall UInt64) (list : PwrListUint64) (pure : PwrList UInt64) (h : Uint64Represents list pure) :
        ∃ status list', call.uint64 list = some (status, list') ∧ (call.Granted → status = PWR_RET_SUCCESS) ∧
          Uint64Represents list'
            (if status = PWR_RET_SUCCESS then pwrapi.pwr_list_add_uint64 pure call.val else pure) := by
      obtain ⟨status, list', hadd, hsuccess, h'⟩ := pwr_list_add_uint64_represents h call.memory call.val
      exact ⟨status, list', hadd, fun hgranted => hsuccess hgranted.1, h'⟩
    have hempty : Uint64Represents {} { min := 0, max := 0 } := ⟨GrowingArray.holds_empty, rfl, rfl, rfl⟩
    obtain ⟨hcalls, hgranted, hrepresents⟩ := run_calls_represents Uint64Represents hadd calls hempty
    have hdescribes := describes_foldl (added (run_calls AddCall.uint64 calls {}))
    obtain ⟨sorted, hsort, hsorted, hperm, hordered⟩ := pwr_list_sort_uint64_represents hrepresents
    rw [hdescribes.values] at hperm
    exact ⟨hcalls, hgranted, hrepresents.right hdescribes, sorted, _, hsort, hperm, hordered,
      hsorted.right (hdescribes.perm hperm)⟩
  · intro calls
    have hempty : StringsRepresents {} {} := ⟨GrowingArray.holds_empty, rfl⟩
    have hadd (call : AddCall String) (list : PwrListStrings) (pure : PwrListString)
        (h : StringsRepresents list pure) :
        ∃ status list', call.string list = some (status, list') ∧ (call.Granted → status = PWR_RET_SUCCESS) ∧
          StringsRepresents list'
            (if status = PWR_RET_SUCCESS then pwrapi.pwr_list_add_string pure call.val else pure) :=
      pwr_list_add_string_represents h call.memory call.val
    obtain ⟨hcalls, hgranted, hrepresents⟩ := run_calls_represents StringsRepresents hadd calls hempty
    obtain ⟨hvalues, hlen⟩ := strings_foldl (added (run_calls AddCall.string calls {}))
    obtain ⟨hholds, hvalue_len⟩ := hrepresents
    rw [hvalues] at hholds
    rw [← hvalue_len] at hlen
    exact ⟨hcalls, hgranted, hholds, hholds.num_le, hlen, string_answers hholds hlen⟩

end pwrapi.value_lists
