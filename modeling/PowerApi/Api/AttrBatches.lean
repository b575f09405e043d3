import Mathlib.Logic.Function.Basic
import PowerApi.Api.GroupCalls

namespace pwrapi

/-- `PWR_AttrAccessError`. -/
structure AttrAccessError where
  obj : UInt64
  name : PwrAttrName
  index : Int
  error : Int
  deriving DecidableEq, Repr

/-- The arguments of one get or set, with `value` as its offset in bytes from the caller's `values`
and `ts` as its index in the caller's `ts`. -/
structure AttrCall where
  object : UInt64
  attr : PwrAttrName
  value : Int
  ts : Option Int
  deriving DecidableEq, Repr

/-- A batch call in progress: the queue of each status by its address, what the gets and sets work
on, and those made, each with its return code. -/
structure Batch (σ : Type) where
  queues : Nat → List AttrAccessError
  world : σ
  calls : List (AttrCall × Int) := []
  retval : Int := PWR_RET_FAILURE
  faults : List String := []

/-- The value of an expression of type `int`. An overflow, of which the language says nothing, is
taken to wrap around. -/
def wrap_int (x : Int) : Int := x.bmod (2 ^ 32)

/-- An array of attributes, unless it is `NULL`. -/
abbrev AttrArray := Option (ℕ → PwrAttrName)

def Library.find_status_by_opaque (lib : Library) (status : UInt64) : Option Nat :=
  opaque_map_lookup_type lib.opaque_map (OPAQUE_GET_DATA_KEY status) .STATUS

def check_status_context (status obj_or_grp : UInt64) : Bool :=
  OPAQUE_GET_CONTEXT_KEY status = OPAQUE_GET_CONTEXT_KEY obj_or_grp

namespace Batch

variable {σ : Type}

def push_status_error (stat : Option Nat) (error : AttrAccessError) (b : Batch σ) : Batch σ :=
  match stat with
  | none => b
  | some stat => { b with queues := Function.update b.queues stat (b.queues stat ++ [error]) }

def clear_status (stat : Option Nat) (b : Batch σ) : Batch σ :=
  match stat with
  | none => b
  | some stat => { b with queues := Function.update b.queues stat [] }

def fault (text : String) (b : Batch σ) : Batch σ := { b with faults := b.faults ++ [text] }

/-- The status that the caller passed, which is cleared, unless it is of another context. -/
def find_status (lib : Library) (status obj_or_grp : UInt64) (text : String) (b : Batch σ) :
    Except (Batch σ) (Option Nat × Batch σ) :=
  let stat := lib.find_status_by_opaque status
  if stat.isSome && !check_status_context status obj_or_grp then .error (b.fault text)
  else .ok (stat, b.clear_status stat)

/-- An element that is not attempted, or fails. -/
def failed (stat : Option Nat) (error : AttrAccessError) (b : Batch σ) : Batch σ :=
  { b.push_status_error stat error with retval := PWR_RET_FAILURE }

/-- One get or set, with the index that is pushed when it fails. -/
def attempt (op : AttrCall → σ → Int × σ) (stat : Option Nat) (call : AttrCall) (index : Int) (b : Batch σ) :
    Batch σ :=
  let (errcode, world) := op call b.world
  let b := { b with world, calls := b.calls ++ [(call, errcode)] }
  if errcode ≠ PWR_RET_SUCCESS then b.failed stat ⟨call.object, call.attr, index, errcode⟩ else b

end Batch

namespace Library

variable {σ : Type} (lib : Library)

/-- The checks that `PWR_ObjAttrGetValues` and its like begin with. -/
def check_arrays (count : Int) (attrs : AttrArray) (values : Bool) (negative : String) :
    Except String (ℕ → PwrAttrName) :=
  if count < 0 then .error negative
  else
    match attrs with
    | none => .error "NULL attrs pointer"
    | some attrs => if values then .ok attrs else .error "NULL values pointer"

def PWR_ObjAttrGetValues (get : AttrCall → σ → Int × σ) (object : UInt64) (count : Int) (attrs : AttrArray)
    (values ts : Bool) (status : UInt64) (b : Batch σ) : Batch σ :=
  match check_arrays count attrs values ("count == " ++ toString count ++ ", < 0") with
  | .error text => b.fault text
  | .ok attrs =>
    match b.find_status lib status object "Status ctx != Object ctx" with
    | .error b => b
    | .ok (stat, b) =>
      (List.range count.toNat).foldl
        (fun b i =>
          b.attempt get stat ⟨object, attrs i, wrap_int (8 * i), if ts then some i else none⟩ i)
        { b with retval := PWR_RET_SUCCESS }

def PWR_ObjAttrSetValues (set : AttrCall → σ → Int × σ) (object : UInt64) (count : Int) (attrs : AttrArray)
    (values : Bool) (status : UInt64) (b : Batch σ) : Batch σ :=
  match check_arrays count attrs values ("count == " ++ toString count ++ ", < 0") with
  | .error text => b.fault text
  | .ok attrs =>
    match b.find_status lib status object "Status ctx != Object ctx" with
    | .error b => b
    | .ok (stat, b) =>
      -- every failure is pushed with index 0
      (List.range count.toNat).foldl
        (fun b i => b.attempt set stat ⟨object, attrs i, wrap_int (8 * i), none⟩ 0)
        { b with retval := PWR_RET_SUCCESS }

/-- The number of objects of a group with which the calls on groups go on. -/
def count_objects (group : UInt64) (b : Batch σ) : Option (Except (Batch σ) ℕ) :=
  match lib.PWR_GrpGetNumObjs group with
  | none => none
  | some counted =>
    let b := { b with faults := b.faults ++ counted.faults }
    if counted.status < 0 then
      some (.error { b.fault "group object count < 0" with retval := PWR_RET_INVALID })
    else some (.ok counted.status.toNat)

/-- The body of the loops of `PWR_GrpAttrGetValue` and `PWR_GrpAttrSetValue` for object `i`. -/
def attempt_object (op : AttrCall → σ → Int × σ) (stat : Option Nat) (group : UInt64)
    (call : ℕ → UInt64 → AttrCall × Int) (b : Batch σ) (i : ℕ) : Option (Batch σ) :=
  match lib.PWR_GrpGetObjByIndx group i with
  | none => none
  | some reply =>
    -- `obj` would be pushed without having been set
    if reply.status ≠ PWR_RET_SUCCESS then none
    else some (b.attempt op stat (call i reply.handle).1 (call i reply.handle).2)

/-- What `PWR_GrpAttrGetValue` and `PWR_GrpAttrSetValue` do after their first check. -/
def attempt_objects (op : AttrCall → σ → Int × σ) (group : UInt64) (call : ℕ → UInt64 → AttrCall × Int)
    (status : UInt64) (b : Batch σ) : Option (Batch σ) :=
  match b.find_status lib status group "Status ctx != Group ctx" with
  | .error b => some b
  | .ok (stat, b) =>
    match lib.count_objects group b with
    | none => none
    | some (.error b) => some b
    | some (.ok num_objs) =>
      (List.range num_objs).foldlM (lib.attempt_object op stat group call) { b with retval := PWR_RET_SUCCESS }

def PWR_GrpAttrGetValue (get : AttrCall → σ → Int × σ) (group : UInt64) (attr : PwrAttrName) (values ts : Bool)
    (status : UInt64) (b : Batch σ) : Option (Batch σ) :=
  if values then
    lib.attempt_objects get group
      (fun i obj => (⟨obj, attr, wrap_int (8 * i), if ts then some (i : Int) else none⟩, i)) status b
  else some (b.fault "NULL values pointer")

def PWR_GrpAttrSetValue (set : AttrCall → σ → Int × σ) (group : UInt64) (attr : PwrAttrName) (value : Bool)
    (status : UInt64) (b : Batch σ) : Option (Batch σ) :=
  if value then lib.attempt_objects set group (fun _ obj => (⟨obj, attr, 0, none⟩, 0)) status b
  else some (b.fault "NULL value pointer")

/-- The inner loop of `PWR_GrpAttrGetValues` for an object, or for the error there was in finding
it, from the given offset on. -/
def get_attributes (get : AttrCall → σ → Int × σ) (stat : Option Nat) (reply : Reply) (count : ℕ)
    (attrs : ℕ → PwrAttrName) (ts : Bool) (b : Batch σ) (offset : Int) : Batch σ × Int :=
  (List.range count).foldl
    (fun (b, offset) j =>
      let b :=
        if reply.status ≠ PWR_RET_SUCCESS then b.failed stat ⟨0, attrs j, offset, reply.status⟩
        else
          b.attempt get stat
            ⟨reply.handle, attrs j, wrap_int (offset * 8), if ts then some offset else none⟩ offset
      (b, wrap_int (offset + 1)))
    (b, offset)

/-- The body of the outer loop of `PWR_GrpAttrGetValues`. -/
def get_object (get : AttrCall → σ → Int × σ) (stat : Option Nat) (group : UInt64) (count : ℕ)
    (attrs : ℕ → PwrAttrName) (ts : Bool) (s : Batch σ × Int) (i : ℕ) : Option (Batch σ × Int) :=
  match lib.PWR_GrpGetObjByIndx group i with
  | none => none
  | some reply =>
    some (get_attributes get stat reply count attrs ts { s.1 with faults := s.1.faults ++ reply.faults } s.2)

def PWR_GrpAttrGetValues (get : AttrCall → σ → Int × σ) (group : UInt64) (count : Int) (attrs : AttrArray)
    (values ts : Bool) (status : UInt64) (b : Batch σ) : Option (Batch σ) :=
  match check_arrays count attrs values "count < 0" with
  | .error text => some (b.fault text)
  | .ok attrs =>
    match b.find_status lib status group "Status ctx != Group ctx" with
    | .error b => some b
    | .ok (stat, b) =>
      match lib.count_objects group b with
      | none => none
      | some (.error b) => some b
      | some (.ok num_objs) =>
        ((List.range num_objs).foldlM (lib.get_object get stat group count.toNat attrs ts)
          ({ b with retval := PWR_RET_SUCCESS }, 0)).map Prod.fst

/-- The inner loop of `PWR_GrpAttrSetValues`. -/
def set_attributes (set : AttrCall → σ → Int × σ) (stat : Option Nat) (reply : Reply) (count : ℕ)
    (attrs : ℕ → PwrAttrName) (b : Batch σ) : Batch σ :=
  (List.range count).foldl
    (fun b j =>
      if reply.status ≠ PWR_RET_SUCCESS then b.failed stat ⟨0, attrs j, j, reply.status⟩
      else b.attempt set stat ⟨reply.handle, attrs j, wrap_int (j * 8), none⟩ j)
    b

/-- The body of the outer loop of `PWR_GrpAttrSetValues`. -/
def set_object (set : AttrCall → σ → Int × σ) (stat : Option Nat) (group : UInt64) (count : ℕ)
    (attrs : ℕ → PwrAttrName) (b : Batch σ) (i : ℕ) : Option (Batch σ) :=
  match lib.PWR_GrpGetObjByIndx group i with
  | none => none
  | some reply =>
    some (set_attributes set stat reply count attrs { b with faults := b.faults ++ reply.faults })

def PWR_GrpAttrSetValues (set : AttrCall → σ → Int × σ) (group : UInt64) (count : Int) (attrs : AttrArray)
    (values : Bool) (status : UInt64) (b : Batch σ) : Option (Batch σ) :=
  match check_arrays count attrs values "count < 0" with
  | .error text => some (b.fault text)
  | .ok attrs =>
    match b.find_status lib status group "Status ctx != Group ctx" with
    | .error b => some b
    | .ok (stat, b) =>
      match lib.count_objects group b with
      | none => none
      | some (.error b) => some b
      | some (.ok num_objs) =>
        (List.range num_objs).foldlM (lib.set_object set stat group count.toNat attrs)
          { b with retval := PWR_RET_SUCCESS }

end Library

end pwrapi
