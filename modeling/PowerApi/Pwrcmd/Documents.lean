import PowerApi.Pwrcmd.Output
import PowerApi.Cson.Printed

open cson

namespace pwrapi.pwrcmd

/-! What the documents are made of -/

/-- The value of a member of a document. -/
inductive Entry (D : Type) where
  | null
  | integer (n : Int64)
  | double (d : D)
  | string (s : Bytes)
  | messages (list : List Bytes)

namespace Entry

variable {D : Type}

def value : Entry D → Value Bytes D
  | null => .null
  | integer n => .integer n
  | double d => .double d
  | string s => .string s
  | messages list => .array (list.map .string)

def is_messages : Entry D → Bool
  | messages _ => true
  | _ => false

/-- The address has the entry. -/
def At (h : Heap Bytes D) (r : Ref) : Entry D → Prop
  | null => h[r]? = some .NULL
  | integer n => h[r]? = some (.INTEGER n)
  | double d => h[r]? = some (.DOUBLE d)
  | string s => h[r]? = some (.STRING s)
  | messages list => ∃ refs, h[r]? = some (.ARRAY refs) ∧ List.Forall₂ (fun c s => h[c]? = some (.STRING s)) refs list

end Entry

/-- The key of the messages, or of the errors. -/
def messages_key (err : Bool) : Bytes := if err then JSON_ERR_MSGS_STR else JSON_MSGS_STR

def reserved : List Bytes := [JSON_RET_CODE_STR, JSON_MSGS_STR, JSON_ERR_MSGS_STR]

/-- The first member with the key changes, or there is a new one. -/
def put {D : Type} (key : Bytes) (f : Option (Entry D) → Entry D) : List (Bytes × Entry D) → List (Bytes × Entry D)
  | [] => [(key, f none)]
  | member :: members => if member.1 = key then (key, f (some member.2)) :: members else member :: put key f members

/-- One more message. -/
def add_message {D : Type} (text : Bytes) : Option (Entry D) → Entry D
  | some (.messages list) => .messages (list ++ [text])
  | _ => .messages [text]

/-- A document that is being made. -/
structure Document (D : Type) where
  members : List (Bytes × Entry D) := []
  code : Int32 := 0
  objects : ℕ := 0

/-- A member that is `null` where there is none. -/
def or_null {D : Type} (key : Bytes) (members : List (Bytes × Entry D)) : List (Bytes × Entry D) :=
  if members.any fun member => member.1 = key then members else members ++ [(key, .null)]

/-- The members of the document that is printed. -/
def Document.complete {D : Type} (d : Document D) : List (Bytes × Entry D) :=
  or_null JSON_ERR_MSGS_STR (or_null JSON_MSGS_STR (d.members ++ [(JSON_RET_CODE_STR, .integer d.code.toInt64)]))

def Document.value {D : Type} (d : Document D) : Value Bytes D :=
  .object (d.complete.map fun member => (member.1, member.2.value))

/-! The client without pointers -/

/-- The calls of the client that have to do with a document, without those that add an object or an
array, or a value to one. -/
inductive Call (D : Type) where
  | enable | disable
  | set_ret_code (ret_code : Int64)
  | flush (force : Bool)
  | print (func : Bytes) (line : ℕ) (errcode : Int32) (text : Bytes)
  | add_null (name : Bytes)
  | add_integer (name : Bytes) (value : Int64)
  | add_double (name : Bytes) (value : D) (text : Bytes)
  | add_string (name : Bytes) (string : Bytes)

/-- The output, with the document as a value. Of either kind of messages there may be a pointer to the
messages of an earlier document. -/
structure Session (D : Type) where
  document : Option (Document D) := none
  stale : Bool → Bool := fun _ => false
  printed : List Printed := []

section Calls

variable {D : Type} (lib : Doubles D)

/-- The member that a call adds, and the line that it prints instead. -/
def Call.member : Call D → Option (Bytes × Entry D × Bytes)
  | .add_null name => some (name, .null, Output.named_line (some name) (bytes ['(', 'n', 'i', 'l', ')']))
  | .add_integer name value => some (name, .integer value, Output.named_line (some name) (bytes (Scanf.print_int 0 value.toInt)))
  | .add_double name value text => some (name, .double (if lib.is_zero value then lib.zero else value), Output.named_line (some name) text)
  | .add_string name string => some (name, .string (cson_new_string string), Output.named_line (some name) string)
  | _ => none

/-- The names that the client gives to the return code and to the messages are not used for anything else. -/
def Call.Plain (call : Call D) : Prop := ∀ member ∈ call.member lib, member.1 ∉ reserved

/-- What the call of the source does. -/
def Call.perform (o : Output D) : Call D → Option (Output D)
  | .enable => o.json_enable_output
  | .disable => o.json_disable_output
  | .set_ret_code ret_code => some (o.json_set_ret_code ret_code)
  | .flush force => o.json_flush_output lib force
  | .print func line errcode text => o.json_print func line errcode text
  | .add_null name => (o.json_add_null none (some name)).map Prod.snd
  | .add_integer name value => (o.json_add_integer none (some name) value).map Prod.snd
  | .add_double name value text => (o.json_add_double lib none (some name) value text).map Prod.snd
  | .add_string name string => (o.json_add_string none (some name) string).map Prod.snd

namespace Session

/-- The document is given up, and its messages with it. -/
def close (s : Session D) : Session D :=
  match s.document with
  | none => s
  | some d =>
    { s with document := none
             stale := fun err => s.stale err || d.members.any fun member => member.1 = messages_key err }

def begin (s : Session D) : Session D := { s.close with document := some {} }

/-- A value with a name, or its line. -/
def add (s : Session D) (name : Bytes) (entry : Entry D) (line : Bytes) : Session D :=
  match s.document with
  | some d =>
    if name = [] then s
    else { s with document := some { d with members := put name (fun _ => entry) d.members, objects := d.objects + 1 } }
  | none => { s with printed := s.printed ++ [.line false line] }

/-- The same calls on the document itself. There is no result where the messages of an earlier document
are used. -/
def step (s : Session D) (call : Call D) : Option (Session D) :=
  match call with
  | .enable => some s.begin
  | .disable => some s.close
  | .set_ret_code ret_code =>
    match s.document with
    | some d => some { s with document := some { d with code := if d.code = 0 then ret_code.toInt32 else d.code } }
    | none => some s
  | .flush force =>
    match s.document with
    | some d =>
      if force || 0 < d.objects then
        some (begin { s with printed := s.printed ++ [.document (do return (← d.value.output Output.opts lib 0) ++ [0x0A])] })
      else some s
    | none => some s
  | .print func line errcode text =>
    let err : Bool := errcode ≠ 0
    match s.document with
    | none => some { s with printed := s.printed ++ [.line err (Output.message func line errcode text ++ [0x0A])] }
    | some d =>
      if s.stale err then none
      else
        let text := cson_new_string ((Output.message func line errcode text).take (MAX_MSG_STR - 1))
        some { s with document := some { members := put (messages_key err) (add_message text) d.members
                                         code := if d.code = 0 then errcode else d.code
                                         objects := d.objects + 1 } }
  | call =>
    match call.member lib with
    | some (name, entry, line) => some (s.add name entry line)
    | none => some s

end Session

/-- The calls one after the other, from the start of the client. -/
def Output.run (calls : List (Call D)) : Option (Output D) := calls.foldlM (fun o call => call.perform lib o) {}

def Session.run (calls : List (Call D)) : Option (Session D) := calls.foldlM (fun s call => s.step lib call) {}

end Calls

end pwrapi.pwrcmd
