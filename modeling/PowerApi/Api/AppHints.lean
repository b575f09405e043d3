import PowerApi.Api.HandleTable
import PowerApi.Api.Library
import PowerApi.Lib.CString
import PowerApi.Lib.SortedSequence

open CString Execution HashTable

namespace pwrapi

abbrev PWR_NUM_REGION_HINTS : Int := 8

abbrev PWR_NUM_REGION_INTENSITIES : Int := 6

/-- `hint_t`. The context is the only one there is, so the pointer to it is left out. -/
structure Hint where
  objptr : Nat
  object : UInt64
  name : List Char
  hint : Int
  level : Int
  deriving DecidableEq, Repr

/-- `apphint_t`. -/
structure AppHint where
  object : UInt64
  name : List Char
  hint : Int
  level : Int
  deriving DecidableEq, Repr

/-- What `obj_t` has to do with hints: its name and the sequence of its hints. -/
structure HintedObj where
  name : List Char
  hints : List Nat := []
  deriving DecidableEq, Repr

/-- A context with its objects and their hints, each by the address of its record. -/
structure AppHints where
  opaque_map : OpaqueMap Nat := {}
  context : Nat
  hintnames : List (List Char) := []
  hintunique : UInt64 := 0
  objects : HashTable Nat HintedObj := ∅
  hints : HashTable Nat Hint := ∅

/-- The plugin agrees to every destruction. -/
def app_hint_destroy (_apphint : AppHint) : Int := PWR_RET_SUCCESS

def _sortnames (s1 s2 : List Char) : Int := strcmp s1 s2

/-- The name of the hint at an address. -/
def hint_name (hints : HashTable Nat Hint) (h : Nat) : List Char :=
  match hints.lookup h with
  | some hint => hint.name
  | none => []

def _sorthints (hints : HashTable Nat Hint) (h1 h2 : Nat) : Int := strcmp (hint_name hints h1) (hint_name hints h2)

/-- What is printed with the format `"hint.%s.%lu"`. -/
def hint_format (name : List Char) (unique : UInt64) : List Char :=
  ['h', 'i', 'n', 't', '.'] ++ name ++ '.' :: print_lu unique

/-- `localname`, of 128 characters. -/
def localname (name : List Char) (unique : UInt64) : List Char := snprintf 128 (hint_format name unique)

/-- The name of the object fits the buffer, with every number. -/
def Fits (name : List Char) : Prop := ∀ unique : UInt64, (hint_format name unique).length < 128

namespace AppHints

def opaque_map_lookup_context (s : AppHints) (key : UInt64) : Option Nat :=
  opaque_map_lookup_type s.opaque_map key .CONTEXT

def opaque_map_lookup_object (s : AppHints) (key : UInt64) : Option Nat :=
  opaque_map_lookup_type s.opaque_map key .OBJECT

def opaque_map_lookup_hint (s : AppHints) (key : UInt64) : Option Nat :=
  opaque_map_lookup_type s.opaque_map key .HINT

def opaque_key (s : AppHints) (record : Nat) : UInt64 := (s.opaque_map.refs record).key

section Calls

variable [SortedSequence]

open SortedSequence

/-- `none` where the hint was freed before. -/
def _del_hint (hintptr : Nat) (s : AppHints) : Option AppHints :=
  match s.hints.lookup hintptr with
  | none => none
  | some hint =>
    let hintnames :=
      match lookup s.hintnames hint.name _sortnames with
      | some iter => s.hintnames.eraseIdx iter
      | none => s.hintnames
    let key := s.opaque_key hintptr
    let opaque_map := if key ≠ 0 then (opaque_map_remove s.opaque_map key).2 else s.opaque_map
    some { s with hintnames, opaque_map, hints := s.hints.erase hintptr }

/-- `g_sequence_remove` at a position of the hints of an object, with `_del_hint` as its
destroy function. -/
def remove_hint (objptr iter : Nat) (s : AppHints) : Option AppHints :=
  match s.objects.lookup objptr with
  | none => none
  | some obj =>
    match obj.hints[iter]? with
    | none => none
    | some hintptr =>
      _del_hint hintptr { s with objects := s.objects.insert objptr { obj with hints := obj.hints.eraseIdx iter } }

/-- `g_sequence_free`, node by node. -/
def destroy_hints (objptr : Nat) : List Nat → AppHints → Option AppHints
  | [], s => some s
  | _ :: rest, s =>
    match remove_hint objptr 0 s with
    | none => none
    | some s => destroy_hints objptr rest s

/-- `del_##TYPE`, for an object that is there. -/
def del_object (objptr : Nat) (s : AppHints) : Option AppHints :=
  match s.objects.lookup objptr with
  | none => none
  | some obj =>
    match destroy_hints objptr obj.hints s with
    | none => none
    | some s =>
      some { s with opaque_map := (opaque_map_remove s.opaque_map (s.opaque_key objptr)).2,
                    objects := s.objects.erase objptr }

/-- The loop that makes up a name, for so many rounds: the name with the number that was
counted last, or nothing while every name is in use. -/
def unused_name (hintnames : List (List Char)) (name : List Char) : Nat → UInt64 → Option (List Char × UInt64)
  | 0, _ => none
  | rounds + 1, hintunique =>
    let hintunique := hintunique + 1
    match lookup hintnames (localname name hintunique) _sortnames with
    | none => some (localname name hintunique, hintunique)
    | some _ => unused_name hintnames name rounds hintunique

/-- After as many rounds as there are numbers the names come again, and the loop never ends. -/
def automatic_name (obj : HintedObj) (s : AppHints) : Option (List Char × UInt64) :=
  unused_name s.hintnames obj.name (2 ^ 64) s.hintunique

/-- The end of `PWR_AppHintCreate`, once there is a name. -/
def new_hint (obj : HintedObj) (hint : Hint) (new : Alloc) (s : AppHints) : Option (Reply × AppHints) :=
  match opaque_map_insert .HINT new.address new.draws s.opaque_map with
  | some (key, [], opaque_map) =>
    let hints := s.hints.insert new.address hint
    let obj := { obj with hints := insert_sorted obj.hints new.address (_sorthints hints) }
    some ({ status := PWR_RET_SUCCESS, handle := OPAQUE_GENERATE (s.opaque_key s.context) key },
      { s with opaque_map, hints, hintnames := insert_sorted s.hintnames hint.name _sortnames,
               objects := s.objects.insert hint.objptr obj })
  | _ => none

def refused (faults : List String) : Reply := { status := PWR_RET_FAILURE, faults }

/-- `hint_region_id` says whether a place for the handle is given. -/
def PWR_AppHintCreate (object : UInt64) (hint_region_name : Option (List Char)) (hint_region_id : Bool)
    (hint level : Int) (new : Alloc) (s : AppHints) : Option (Reply × AppHints) :=
  if ¬ hint_region_id then some (refused ["hint_region_id pointer required"], s)
  else if hint < 0 ∨ hint ≥ PWR_NUM_REGION_HINTS then some (refused ["invalid hint = " ++ toString hint], s)
  else if level < 0 ∨ level ≥ PWR_NUM_REGION_INTENSITIES then
    some (refused ["invalid intensity = " ++ toString level], s)
  else
    match s.opaque_map_lookup_object (OPAQUE_GET_DATA_KEY object) with
    | none => some (refused ["object not found!"], s)
    | some objptr =>
      match s.opaque_map_lookup_context (OPAQUE_GET_CONTEXT_KEY object) with
      | none => some (refused ["object context not found!"], s)
      | some ctxptr =>
        -- a handle that puts another context and the object together is no handle of this context
        if ctxptr ≠ s.context then none else
        match s.objects.lookup objptr with
        | none => none
        | some obj =>
          match hint_region_name with
          | none =>
            match s.automatic_name obj with
            | none => none
            | some (name, hintunique) =>
              new_hint obj { objptr, object, name, hint, level } new { s with hintunique }
          | some name =>
            if (lookup s.hintnames name _sortnames).isSome then
              some (refused ["hint name '" ++ String.ofList name ++ "' already exists!"], s)
            else new_hint obj { objptr, object, name, hint, level } new s

def PWR_AppHintDestroy (hint_region_id : UInt64) (s : AppHints) : Option (Reply × AppHints) :=
  match s.opaque_map_lookup_hint (OPAQUE_GET_DATA_KEY hint_region_id) with
  | none => some (refused ["hint not found!"], s)
  | some hintptr =>
    match s.hints.lookup hintptr with
    | none => none
    | some hint =>
      let apphint := { object := hint.object, name := hint.name, hint := hint.hint, level := hint.level }
      if app_hint_destroy apphint ≠ PWR_RET_SUCCESS then
        some (refused ["hint cannot be destroyed at this time"], s)
      else
        match s.objects.lookup hint.objptr with
        | none => none
        | some obj =>
          match lookup obj.hints hintptr (_sorthints s.hints) with
          | none => (_del_hint hintptr s).map (refused ["hint found, but not linked to object"], ·)
          | some iter => (remove_hint hint.objptr iter s).map ({ status := PWR_RET_SUCCESS }, ·)

end Calls

end AppHints

inductive HintCall where
  | create (object : UInt64) (hint_region_name : Option (List Char)) (hint_region_id : Bool)
      (hint level : Int) (new : Alloc)
  | destroy (hint_region_id : UInt64)
  | del_object (objptr : Nat)

/-- The numbers drawn in the call. -/
def HintCall.draws : HintCall → List UInt32
  | .create _ _ _ _ _ new => new.draws
  | _ => []

namespace AppHints

/-- A call with its reply, which is a success where the call returns nothing. -/
def perform [SortedSequence] : HintCall → AppHints → Option (Reply × AppHints)
  | .create object hint_region_name hint_region_id hint level new, s =>
    s.PWR_AppHintCreate object hint_region_name hint_region_id hint level new
  | .destroy hint_region_id, s => s.PWR_AppHintDestroy hint_region_id
  | .del_object objptr, s => (s.del_object objptr).map ({ status := PWR_RET_SUCCESS }, ·)

/-- A new hint is at an address where no other record is. -/
def Fresh (s : AppHints) : HintCall → Prop
  | .create _ _ _ _ _ new => new.address ∉ values s.opaque_map.table
  | _ => True

instance (s : AppHints) : (call : HintCall) → Decidable (s.Fresh call)
  | .create _ _ _ _ _ new => inferInstanceAs (Decidable (new.address ∉ values s.opaque_map.table))
  | .destroy _ => .isTrue trivial
  | .del_object _ => .isTrue trivial

/-- A call that is refused draws no numbers. -/
def HintStep [SortedSequence] (s : AppHints) (step : HintCall × Reply) (s' : AppHints) : Prop :=
  s.Fresh step.1 ∧ perform step.1 s = some (step.2, s') ∧
    (step.2.status ≠ PWR_RET_SUCCESS → step.1.draws = [])

end AppHints

end pwrapi
