import Mathlib.Data.List.Basic
import PowerApi.Api.Opaque
import PowerApi.Types

namespace pwrapi

/-- A `GList *` with the data of its nodes, or one whose nodes were freed. -/
inductive GList where
  | nodes (data : List Nat)
  | freed
  deriving DecidableEq, Repr

def g_list_prepend : GList → Nat → Option GList
  | .nodes data, record => some (.nodes (record :: data))
  | .freed, _ => none

/-- `g_list_delete_link` for the link that holds the record. -/
def g_list_delete_link : GList → Nat → Option GList
  | .nodes data, record => if record ∈ data then some (.nodes (data.erase record)) else none
  | .freed, _ => none

def group_compare_obj (obj1 obj2 : Nat) : Int :=
  if obj1 < obj2 then -1 else if obj1 > obj2 then 1 else 0

/-- What is documented of `g_sequence_lookup` and `g_sequence_insert_sorted` on sequences
sorted by `group_compare_obj`. On others nothing is promised. -/
class GSequence where
  g_sequence_lookup : List Nat → Nat → Option Nat
  g_sequence_insert_sorted : List Nat → Nat → List Nat
  lookup_some {list obj i} : list.Pairwise (fun a b => group_compare_obj a b ≤ 0) →
    g_sequence_lookup list obj = some i → list[i]? = some obj
  lookup_none {list obj} : list.Pairwise (fun a b => group_compare_obj a b ≤ 0) →
    g_sequence_lookup list obj = none → obj ∉ list
  insert_perm (list obj) : list.Pairwise (fun a b => group_compare_obj a b ≤ 0) →
    (g_sequence_insert_sorted list obj).Perm (obj :: list)
  insert_sorted (list obj) : list.Pairwise (fun a b => group_compare_obj a b ≤ 0) →
    (g_sequence_insert_sorted list obj).Pairwise fun a b => group_compare_obj a b ≤ 0

export GSequence (g_sequence_lookup g_sequence_insert_sorted)

/-- `context_t`. -/
structure Context where
  name : String := ""
  entry_point : Option Nat := none
  group_list : List Nat := []
  stat_list : List Nat := []
  deriving DecidableEq, Repr

/-- `group_t`. -/
structure Group where
  context_key : UInt64 := 0
  list : List Nat := []
  stat_list : GList := .nodes []
  deriving DecidableEq, Repr

/-- `stat_t`, with `thread` saying whether one runs. -/
structure Stat where
  context_key : UInt64 := 0
  obj : UInt64 := 0
  grp : UInt64 := 0
  attr : PwrAttrName := .PSTATE
  stat : PwrAttrStat := .MIN
  objcount : Int := 0
  start : UInt64 := 0
  stop : UInt64 := 0
  thread : Bool := false
  deriving DecidableEq, Repr

/-- `obj_t`. -/
structure Obj where
  type : PwrObjType
  name : String
  gnode : Option Nat
  deriving DecidableEq, Repr

structure GNode where
  data : Nat
  parent : Option Nat
  children : List Nat
  deriving DecidableEq, Repr

/-- The records of the library that are allocated, by their addresses. Each begins with the
`opaque_ref_t` that the opaque map has for its address. -/
structure Library where
  opaque_map : OpaqueMap Nat := {}
  contexts : HashTable Nat Context := ∅
  groups : HashTable Nat Group := ∅
  stats : HashTable Nat Stat := ∅
  objects : HashTable Nat Obj := ∅
  gnodes : HashTable Nat GNode := ∅

/-- The address of a new record and the numbers drawn for its key. -/
structure Alloc where
  address : Nat
  draws : List UInt32

/-- The conversion `%p`. -/
def print_pointer (key : UInt64) : String :=
  if key = 0 then "(nil)" else "0x" ++ String.ofList (Nat.toDigits 16 key.toNat)

/-- What a call returns: its status, the handle it stores and the faults it logs. -/
structure Reply where
  status : Int
  handle : UInt64 := 0
  faults : List String := []
  deriving DecidableEq, Repr

namespace Library

def opaque_map_lookup_context (lib : Library) (key : UInt64) : Option Nat :=
  opaque_map_lookup_type lib.opaque_map key .CONTEXT

def opaque_map_lookup_group (lib : Library) (key : UInt64) : Option Nat :=
  opaque_map_lookup_type lib.opaque_map key .GROUP

def opaque_map_lookup_object (lib : Library) (key : UInt64) : Option Nat :=
  opaque_map_lookup_type lib.opaque_map key .OBJECT

def opaque_map_lookup_stat (lib : Library) (key : UInt64) : Option Nat :=
  opaque_map_lookup_type lib.opaque_map key .STAT

/-- `opaque.key` of the record at an address. -/
def opaque_key (lib : Library) (record : Nat) : UInt64 := (lib.opaque_map.refs record).key

def find_group_by_opaque (lib : Library) (group : UInt64) : Option (Except (List String) Nat) :=
  match lib.opaque_map_lookup_group (OPAQUE_GET_DATA_KEY group) with
  | none => some (.error ["Group not found in map!"])
  | some grp =>
    match lib.groups.lookup grp with
    | none => none
    | some g =>
      if OPAQUE_GET_CONTEXT_KEY group ≠ g.context_key then some (.error ["Group context invalid!"])
      else some (.ok grp)

def find_context_by_opaque (lib : Library) (opaque_handle : UInt64) : Except (List String) Nat :=
  let ctx_key := OPAQUE_GET_CONTEXT_KEY opaque_handle
  match lib.opaque_map_lookup_context ctx_key with
  | none => .error ["Context not found in map!"]
  | some ctx =>
    if ctx_key ≠ OPAQUE_GET_DATA_KEY (lib.opaque_key ctx) then
      .error ["Context key doesn't match requested key!",
        "    req key = " ++ print_pointer ctx_key ++
          ", ctx key = " ++ print_pointer (OPAQUE_GET_DATA_KEY (lib.opaque_key ctx))]
    else .ok ctx

end Library

end pwrapi
