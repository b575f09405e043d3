import PowerApi.Cson.Containers
import PowerApi.Cson.Output
import PowerApi.Types

open cson

namespace pwrapi.pwrcmd

def JSON_RET_CODE_STR : Bytes := bytes ['P', 'W', 'R', '_', 'R', 'e', 't', 'u', 'r', 'n', 'C', 'o', 'd', 'e']
def JSON_MSGS_STR : Bytes := bytes ['P', 'W', 'R', '_', 'M', 'e', 's', 's', 'a', 'g', 'e', 's']
def JSON_ERR_MSGS_STR : Bytes := bytes ['P', 'W', 'R', '_', 'E', 'r', 'r', 'o', 'r', 'M', 'e', 's', 's', 'a', 'g', 'e', 's']

abbrev MAX_MSG_STR : ℕ := 1024

/-- What the client prints: text to one of the two streams, or a JSON document. A document that
`cson_output` stops in has the reason in its place: the part that was printed before is left out,
and a failing assertion, which ends the program, is followed by the next call like an error. -/
inductive Printed where
  | line (err : Bool) (text : Bytes)
  | document (text : Except Stop Bytes)
  deriving DecidableEq

/-- The variables of the output, the memory of the JSON values and what was printed so far. -/
structure Output (D : Type) where
  memory : Memory Bytes D := {}
  cout : Option Ref := none
  cmsgs : Option Ref := none
  cerrmsgs : Option Ref := none
  num_cmsgs : ℕ := 0
  num_cerrmsgs : ℕ := 0
  num_objects : ℕ := 0
  cson_ret_code : Int32 := 0
  printed : List Printed := []

namespace Output

/-! A call that uses a JSON value after it was freed has no result. -/

variable {D : Type} (o : Output D)

def json_is_enabled : Bool := o.cout.isSome

def json_disable_output : Option (Output D) :=
  match o.cout with
  | none => some o
  | some cout => (o.memory.cson_value_free cout).map fun memory => { o with memory, cout := none }

def json_enable_output : Option (Output D) :=
  o.json_disable_output.map fun o =>
    let (cout, memory) := o.memory.alloc (.OBJECT [])
    { o with memory, cout := some cout, num_cmsgs := 0, num_cerrmsgs := 0, num_objects := 0, cson_ret_code := 0 }

def json_set_ret_code (ret_code : Int64) : Output D :=
  if o.json_is_enabled && o.cson_ret_code = 0 then { o with cson_ret_code := ret_code.toInt32 } else o

/-- The options for the documents. -/
def opts : OutputOpt where
  indentation := 4
  maxDepth := 25
  addNewline := true
  addSpaceAfterColon := true
  indentSingleMemberValues := true
  escapeForwardSlashes := false

/-- A member of the document that is `null` where there is none yet. -/
def default_null (cout : Ref) (key : Bytes) (memory : Memory Bytes D) : Option (Memory Bytes D) :=
  match cson_object_get cout key memory with
  | none => none
  | some (some _) => some memory
  | some none =>
    let (v, memory) := memory.alloc .NULL
    (cson_object_set cout key v memory).map Prod.snd

def json_flush_output (lib : Doubles D) (force : Bool) : Option (Output D) :=
  match o.cout with
  | none => some o
  | some cout =>
    if force || 0 < o.num_objects then do
      let (code, memory) := o.memory.alloc (.INTEGER o.cson_ret_code.toInt64)
      let (_, memory) ← cson_object_set cout JSON_RET_CODE_STR code memory
      let memory ← default_null cout JSON_MSGS_STR memory
      let memory ← default_null cout JSON_ERR_MSGS_STR memory
      json_enable_output { o with memory, printed := o.printed ++ [.document (cson_output opts lib memory.heap cout)] }
    else
      some o

/-- What stands before the text of an error. -/
def error_prefix (func : Bytes) (line : ℕ) (errcode : Int32) : Bytes :=
  bytes ['E', 'R', 'R', 'O', 'R', '('] ++ func ++ [0x3A] ++ bytes (Nat.toDigits 10 line) ++ bytes [')', ' '] ++
    bytes (Scanf.print_int 0 errcode.toInt) ++ bytes [':', ' ']

/-- The message of a call, with the place of an error in front. -/
def message (func : Bytes) (line : ℕ) (errcode : Int32) (text : Bytes) : Bytes :=
  (if errcode ≠ 0 then error_prefix func line errcode else []) ++ text

/-- `*msgsV`: the pointer to the messages, or to the errors. -/
def msgs (err : Bool) : Option Ref := if err then o.cerrmsgs else o.cmsgs

/-- `*nmsgs` -/
def nmsgs (err : Bool) : ℕ := if err then o.num_cerrmsgs else o.num_cmsgs

def set_msgs (err : Bool) (msgs : Ref) : Output D :=
  if err then { o with cerrmsgs := some msgs } else { o with cmsgs := some msgs }

def count_msg (err : Bool) : Output D :=
  if err then { o with num_cerrmsgs := o.num_cerrmsgs + 1 } else { o with num_cmsgs := o.num_cmsgs + 1 }

/-- The array of messages, or of errors, which is made with the first of them. -/
def messages (err : Bool) (cout : Ref) : Option (Ref × Output D) :=
  match o.msgs err with
  | some msgs => some (msgs, o)
  | none =>
    let (msgs, memory) := o.memory.alloc (.ARRAY [])
    (cson_object_set cout (if err then JSON_ERR_MSGS_STR else JSON_MSGS_STR) msgs memory).map fun (_, memory) =>
      (msgs, { o with memory }.set_msgs err msgs)

/-- `json_print`, with the text that its format gives. -/
def json_print (func : Bytes) (line : ℕ) (errcode : Int32) (text : Bytes) : Option (Output D) :=
  let err : Bool := errcode ≠ 0
  match o.cout with
  | none => some { o with printed := o.printed ++ [.line err (message func line errcode text ++ [0x0A])] }
  | some cout => do
    let o := if err then o.json_set_ret_code errcode.toInt64 else o
    let (msgs, o) ← o.messages err cout
    let (v, memory) := o.memory.alloc (.STRING (cson_new_string ((message func line errcode text).take (MAX_MSG_STR - 1))))
    let (_, memory) ← cson_array_set msgs (o.nmsgs err) v memory
    return { o with memory, num_objects := o.num_objects + 1 }.count_msg err

/-- `json_generic_add`: whether the value was added. -/
def json_generic_add (base : Option Ref) (name : Option Bytes) (v : Ref) : Option (Bool × Output D) :=
  match base, name, o.cout with
  | none, none, _ => some (false, o)
  | _, _, none => none
  | some list, none, some _ => finish (o.memory.cson_array_append list v)
  | base, some name, some cout => finish (cson_object_set (base.getD cout) name v o.memory)
where
  finish (result : Option (CsonRc × Memory Bytes D)) : Option (Bool × Output D) := do
    let (rval, memory) ← result
    if rval = .OK then
      return (true, { o with memory })
    else
      return (false, { o with memory := ← memory.cson_value_free v })

/-- What the functions that add a value share: the JSON value that they make, or the line that they print. -/
def json_add (base : Option Ref) (name : Option Bytes) (v : CsonValue Bytes D) (text : Option Bytes) : Option (Option Ref × Output D) :=
  if o.json_is_enabled then do
    let (r, memory) := o.memory.alloc v
    let (retval, o) ← json_generic_add { o with memory } base name r
    return if retval then (some r, { o with num_objects := o.num_objects + 1 }) else (none, o)
  else
    some (none, { o with printed := o.printed ++ text.toList.map (.line false) })

/-- A line with a name, or an element of a list. -/
def named_line (name : Option Bytes) (text : Bytes) : Bytes :=
  (match name with
    | some name => name ++ bytes [':', ' ']
    | none => bytes [' ', ' ']) ++ text ++ [0x0A]

def json_add_null (base : Option Ref) (name : Option Bytes) : Option (Option Ref × Output D) :=
  o.json_add base name .NULL (name.map fun name => named_line name (bytes ['(', 'n', 'i', 'l', ')']))

def json_add_integer (base : Option Ref) (name : Option Bytes) (value : Int64) : Option (Option Ref × Output D) :=
  o.json_add base name (.INTEGER value) (some (named_line name (bytes (Scanf.print_int 0 value.toInt))))

/-- `json_add_double`, with the text that its format gives. -/
def json_add_double (lib : Doubles D) (base : Option Ref) (name : Option Bytes) (value : D) (text : Bytes) :
    Option (Option Ref × Output D) :=
  o.json_add base name (cson_value_new_double lib value) (some (named_line name text))

def json_add_string (base : Option Ref) (name : Option Bytes) (string : Bytes) : Option (Option Ref × Output D) :=
  o.json_add base name (.STRING (cson_new_string string)) (some (named_line name string))

/-- `json_add_object`: the new object, where there is one. -/
def json_add_object (base : Option Ref) (name : Option Bytes) : Option (Option Ref × Output D) :=
  o.json_add base name (.OBJECT []) none

end Output

end pwrapi.pwrcmd
