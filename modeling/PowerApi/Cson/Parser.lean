import PowerApi.Common.Permissions
import PowerApi.Cson.Table
import PowerApi.Cson.Value
import PowerApi.Lib.Scanf

open pwrapi.permissions (isspace)

namespace cson

abbrev Bytes := List UInt8

/-- The bytes as characters of the C locale, and back. -/
def chars (s : Bytes) : List Char := s.map fun b => Char.ofNat b.toNat

def bytes (s : List Char) : Bytes := s.map Char.toUInt8

/-- The two classes of white space. -/
def is_blank (b : UInt8) : Bool := char_class b = some .SPACE || char_class b = some .WHITE

/-- What the library does with a floating point number: `sprintf` with `%f`, `strtod`, and the test for
zero. White space after a number does not change what `strtod` reads. -/
structure Doubles (D : Type) where
  sprintf : D → Bytes
  strtod : Bytes → D
  zero : D
  is_zero : D → Bool
  strtod_append : ∀ text blanks : Bytes, (∀ b ∈ blanks, is_blank b = true) → strtod (text ++ blanks) = strtod text

/-- `sscanf` with `%lld`, which keeps what does not fit at the limit. -/
def sscanf_lld (s : Bytes) : Int64 :=
  Int64.ofIntClamp ((Scanf.scan_int isspace (chars s)).elim 0 Prod.fst)

inductive JsonError where
  | NONE | INVALID_CHAR | INVALID_KEYWORD | INVALID_ESCAPE_SEQUENCE | INVALID_UNICODE_SEQUENCE | INVALID_NUMBER
  | NESTING_DEPTH_REACHED | UNBALANCED_COLLECTION | EXPECTED_KEY | EXPECTED_COLON
  deriving DecidableEq, Repr

/-- The types of values that the parser's `type` can be. -/
inductive JsonType where
  | NONE | INTEGER | FLOAT | NULL | TRUE | FALSE | STRING
  deriving DecidableEq, Repr

/-- What the callback is told, with the value where there is one. -/
inductive Event (D : Type) where
  | ARRAY_BEGIN | ARRAY_END | OBJECT_BEGIN | OBJECT_END
  | INTEGER (n : Int64) | FLOAT (d : D) | NULL | TRUE | FALSE | STRING (s : Bytes) | KEY (s : Bytes)

/-- The codes of `cson_rc`. -/
inductive CsonRc where
  | OK | ArgError | RangeError | InternalError | UnknownError
  | Parse_INVALID_CHAR | Parse_INVALID_KEYWORD | Parse_INVALID_ESCAPE_SEQUENCE | Parse_INVALID_UNICODE_SEQUENCE
  | Parse_INVALID_NUMBER | Parse_NESTING_DEPTH_REACHED | Parse_UNBALANCED_COLLECTION | Parse_EXPECTED_KEY
  | Parse_EXPECTED_COLON
  deriving DecidableEq, Repr

/-- Why the parser goes no further: it returns false, with its own error and that of the callback, an
assertion fails, or it writes past the end of its memory. -/
inductive Stop where
  | reject (error : JsonError) (errNo : CsonRc)
  | assertion
  | overrun
  deriving DecidableEq, Repr

/-- `assert` -/
def assert (condition : Bool) : Except Stop Unit := if condition then .ok () else .error .assertion

/-! The callback, which builds the value -/

/-- `cson_parser`. The containers that are open are in `stack`, the innermost first. -/
structure Builder (D : Type) where
  heap : Heap Bytes D
  root : Option Ref
  node : Option Ref
  stack : List Ref
  ckey : Option Bytes

section Callback

variable {D : Type} (lib : Doubles D)

/-- `cson_new_string`, which takes a string that begins with a zero byte for the empty one. -/
def cson_new_string (str : Bytes) : Bytes := if str.head? = some 0 then [] else str

/-- `cson_value_new_double`, which has one value for both zeros. -/
def cson_value_new_double (d : D) : CsonValue Bytes D := .DOUBLE (if lib.is_zero d then lib.zero else d)

/-- `cson_parser_set_key` -/
def cson_parser_set_key (key : Bytes) (val : Ref) (p : Builder D) : Except Stop (Builder D) :=
  match p.node with
  | none => .error .assertion
  | some node =>
    match p.heap[node]? with
    | some (.OBJECT _) => .ok { p with heap := cson_kvp_list_append node key val p.heap, ckey := none }
    | _ => .error .assertion

/-- `cson_parser_push_value` -/
def cson_parser_push_value (val : Ref) (p : Builder D) : Except Stop (Builder D) :=
  match p.ckey with
  | some key => cson_parser_set_key key val p
  | none =>
    match p.node with
    | none => .error .assertion
    | some node =>
      match p.heap[node]? with
      | some (.ARRAY _) => .ok { p with heap := cson_array_append node val p.heap }
      | _ => .error .assertion

/-- A value that is not a container. -/
def push_scalar (v : CsonValue Bytes D) (p : Builder D) : Except Stop (Builder D) :=
  let (val, heap) := cson_value_new v p.heap
  cson_parser_push_value val { p with heap }

/-- `JSON_T_ARRAY_BEGIN` and `JSON_T_OBJECT_BEGIN` -/
def begin_container (v : CsonValue Bytes D) (p : Builder D) : Except Stop (Builder D) :=
  let (obja, heap) := cson_value_new v p.heap
  match p.root with
  | none => .ok { p with heap, root := some obja, node := some obja, stack := obja :: p.stack }
  | some _ =>
    match cson_parser_push_value obja { p with heap, stack := obja :: p.stack } with
    | .error stop => .error stop
    | .ok p => .ok { p with node := some obja }

/-- `JSON_T_ARRAY_END` and `JSON_T_OBJECT_END` -/
def end_container (p : Builder D) : Except Stop (Builder D) :=
  match p.stack with
  | [] => .error (.reject .NONE .RangeError)
  | top :: stack =>
    if p.node = some top then .ok { p with stack, node := stack.head?.or p.root } else .error .assertion

def cson_parse_callback (event : Event D) (p : Builder D) : Except Stop (Builder D) :=
  match event with
  | .ARRAY_BEGIN => begin_container (.ARRAY []) p
  | .OBJECT_BEGIN => begin_container (.OBJECT []) p
  | .ARRAY_END => end_container p
  | .OBJECT_END => end_container p
  | .INTEGER n => push_scalar (.INTEGER n) p
  | .FLOAT d => push_scalar (cson_value_new_double lib d) p
  | .NULL => push_scalar .NULL p
  | .TRUE => push_scalar (.BOOL true) p
  | .FALSE => push_scalar (.BOOL false) p
  | .KEY s => if p.ckey = none then .ok { p with ckey := some (cson_new_string s) } else .error .assertion
  | .STRING s => push_scalar (.STRING (cson_new_string s)) p

end Callback

/-! The parser -/

/-- `enum modes` -/
inductive Mode where
  | ARRAY | DONE | KEY | OBJECT
  deriving DecidableEq, Repr

abbrev JSON_PARSER_STACK_SIZE : ℕ := 128

abbrev JSON_PARSER_PARSE_BUFFER_SIZE : ℕ := 3500

/-- `struct JSON_parser_struct`. The mode on top of the stack is the first one, so that `top` is one less
than the length, and `stack_size` is the size of the memory behind it. Floats are never left to the
callback. -/
structure Parser (D : Type) where
  ctx : Builder D
  state : State
  before_comment_state : State
  type : JsonType
  escaped : Bool
  comment : Bool
  allow_comments : Bool
  decimal_point : UInt8
  utf16_high_surrogate : ℕ
  depth : Int
  stack : List Mode
  stack_capacity : ℕ
  stack_size : ℕ
  parse_buffer : Bytes
  parse_buffer_capacity : ℕ

/-- `set_error`, for the character read last. -/
def set_error (state : State) (current_char : UInt8) : JsonError :=
  match state with
  | .GO => if (bytes ['{', '}', '[', ']']).contains current_char then .UNBALANCED_COLLECTION else .INVALID_CHAR
  | .OB => .EXPECTED_KEY
  | .AR => .UNBALANCED_COLLECTION
  | .CO => .EXPECTED_COLON
  | .KE => .EXPECTED_KEY
  | .U1 | .U2 | .U3 | .U4 | .D1 | .D2 => .INVALID_UNICODE_SEQUENCE
  | .T1 | .T2 | .T3 | .F1 | .F2 | .F3 | .F4 | .N1 | .N2 | .N3 => .INVALID_KEYWORD
  | .MI | .ZE | .IT | .FR | .E1 | .E2 | .E3 => .INVALID_NUMBER
  | _ => .INVALID_CHAR

/-- The parser returns false without a callback at fault. -/
abbrev rejected {α : Type} (error : JsonError) : Except Stop α := .error (.reject error .OK)

namespace Parser

variable {D : Type} (lib : Doubles D) (jc : Parser D)

def top : Int := jc.stack.length - 1

/-- `jc->stack[++jc->top] = mode` -/
def write_mode (mode : Mode) : Except Stop (Parser D) :=
  if jc.stack.length < jc.stack_size then .ok { jc with stack := mode :: jc.stack } else .error .overrun

/-- `push` -/
def push (mode : Mode) : Except Stop (Parser D) := do
  assert (jc.top ≤ jc.stack_capacity)
  if jc.depth < 0 then
    if jc.top = jc.stack_capacity then
      let stack_capacity := jc.stack_capacity * 2
      ({ jc with stack_capacity, stack_size := stack_capacity } : Parser D).write_mode mode
    else
      jc.write_mode mode
  else if jc.top = jc.depth then
    rejected .NESTING_DEPTH_REACHED
  else
    jc.write_mode mode

/-- `pop`, which leaves it to the caller to name the error. -/
def pop (mode : Mode) (error : JsonError) : Except Stop (Parser D) :=
  match jc.stack with
  | top :: stack => if top = mode then .ok { jc with stack } else rejected error
  | [] => rejected error

def parse_buffer_clear : Parser D := { jc with parse_buffer := [] }

def parse_buffer_pop_back_char : Except Stop (Parser D) := do
  assert (jc.parse_buffer ≠ [])
  return { jc with parse_buffer := jc.parse_buffer.dropLast }

/-- The loop of `parse_buffer_reserve_for`, which doubles the buffer until it is large enough. -/
def grown (needed : ℕ) : (fuel : ℕ) → (capacity : ℕ) → ℕ
  | 0, capacity => capacity
  | fuel + 1, capacity => if needed > capacity then grown needed fuel (capacity * 2) else capacity

/-- `parse_buffer_reserve_for`. As the capacity is positive, it grows in each turn. -/
def parse_buffer_reserve_for (count : ℕ) : Parser D :=
  let needed := jc.parse_buffer.length + count + 1
  { jc with parse_buffer_capacity := grown needed needed jc.parse_buffer_capacity }

def parse_buffer_push_back_char (c : UInt8) : Except Stop (Parser D) := do
  assert (jc.parse_buffer.length + 1 + 1 ≤ jc.parse_buffer_capacity)
  return { jc with parse_buffer := jc.parse_buffer ++ [c] }

/-- A callback made by the parser. -/
def callback (event : Event D) : Except Stop (Parser D) := do
  return { jc with ctx := ← cson_parse_callback lib event jc.ctx }

def parse_parse_buffer : Except Stop (Parser D) := do
  let jc ← match jc.type with
    | .NONE => pure jc
    | .FLOAT => jc.callback lib (.FLOAT (lib.strtod jc.parse_buffer))
    | .INTEGER => jc.callback lib (.INTEGER (sscanf_lld jc.parse_buffer))
    | .NULL => jc.callback lib .NULL
    | .TRUE => jc.callback lib .TRUE
    | .FALSE => jc.callback lib .FALSE
    | .STRING => jc.callback lib (.STRING jc.parse_buffer)
  return jc.parse_buffer_clear

end Parser

/-! Unicode escapes -/

/-- A digit of a `\uXXXX` sequence. -/
def hex_value (p : UInt8) : ℕ :=
  if p.toNat ≥ 0x61 then p.toNat - (0x61 - 10)
  else if p.toNat ≥ 0x41 then p.toNat - (0x41 - 10)
  else p.toNat &&& 0xFFFFFFCF

/-- The UTF-16 unit that the digits name. -/
def utf16_unit (digits : Bytes) : ℕ := digits.foldl (fun uc p => (uc <<< 4) ||| hex_value p) 0

def IS_HIGH_SURROGATE (uc : ℕ) : Bool := uc &&& 0xFC00 = 0xD800

def IS_LOW_SURROGATE (uc : ℕ) : Bool := uc &&& 0xFC00 = 0xDC00

def DECODE_SURROGATE_PAIR (hi lo : ℕ) : ℕ := ((hi &&& 0x3FF) <<< 10) + (lo &&& 0x3FF) + 0x10000

def utf8_lead_bits (trail_bytes : ℕ) : ℕ := [0x00, 0xC0, 0xE0, 0xF0].getD trail_bytes 0

/-- The UTF-8 bytes of a character, one and the given number of trail bytes. -/
def utf8_bytes (uc trail_bytes : ℕ) : Bytes :=
  UInt8.ofNat ((uc >>> (trail_bytes * 6)) ||| utf8_lead_bits trail_bytes) ::
    (List.range trail_bytes).reverse.map fun i => UInt8.ofNat (((uc >>> (i * 6)) &&& 0x3F) ||| 0x80)

namespace Parser

variable {D : Type} (lib : Doubles D) (jc : Parser D)

/-- The bytes of a character written to the parse buffer, with the zero byte after them. -/
def write_utf8 (uc trail_bytes : ℕ) : Except Stop (Parser D) :=
  let parse_buffer := jc.parse_buffer ++ utf8_bytes uc trail_bytes
  if parse_buffer.length < jc.parse_buffer_capacity then .ok { jc with parse_buffer } else .error .overrun

def decode_unicode_char : Except Stop (Parser D) := do
  let count := jc.parse_buffer.length
  assert (count ≥ 6)
  let digits := jc.parse_buffer.drop (count - 4)
  assert (digits.all fun p => hex_value p < 16)
  let uc := utf16_unit digits
  let jc := { jc with parse_buffer := jc.parse_buffer.take (count - 6) }
  if uc = 0xFFFF ∨ uc = 0xFFFE then
    rejected .INVALID_UNICODE_SEQUENCE
  else if jc.utf16_high_surrogate ≠ 0 then
    if IS_LOW_SURROGATE uc then
      ({ jc with utf16_high_surrogate := 0 } : Parser D).write_utf8 (DECODE_SURROGATE_PAIR jc.utf16_high_surrogate uc) 3
    else
      rejected .INVALID_UNICODE_SEQUENCE
  else if uc < 0x80 then
    jc.write_utf8 uc 0
  else if uc < 0x800 then
    jc.write_utf8 uc 1
  else if IS_HIGH_SURROGATE uc then
    return { jc with utf16_high_surrogate := uc }
  else if IS_LOW_SURROGATE uc then
    rejected .INVALID_UNICODE_SEQUENCE
  else
    jc.write_utf8 uc 2

/-- What stands for the character after a backslash. -/
def escaped_char (c : UInt8) : Option Bytes :=
  if c = 0x62 then some [0x08]
  else if c = 0x66 then some [0x0C]
  else if c = 0x6E then some [0x0A]
  else if c = 0x72 then some [0x0D]
  else if c = 0x74 then some [0x09]
  else if c = 0x22 then some [0x22]
  else if c = 0x5C then some [0x5C]
  else if c = 0x2F then some [0x2F]
  else if c = 0x75 then some [0x5C, 0x75]
  else none

def add_escaped_char_to_parse_buffer (next_char : UInt8) : Except Stop (Parser D) := do
  assert (jc.parse_buffer.length + 1 + 1 ≤ jc.parse_buffer_capacity)
  let jc ← ({ jc with escaped := false } : Parser D).parse_buffer_pop_back_char
  match escaped_char next_char with
  | none => rejected .INVALID_ESCAPE_SEQUENCE
  | some chars => chars.foldlM parse_buffer_push_back_char jc

def add_char_to_parse_buffer (next_char : UInt8) (next_class : Class) : Except Stop (Parser D) :=
  let jc := jc.parse_buffer_reserve_for 1
  if jc.escaped then
    jc.add_escaped_char_to_parse_buffer next_char
  else if !jc.comment && (jc.type ≠ .NONE || !(next_class = .SPACE || next_class = .WHITE)) then
    jc.parse_buffer_push_back_char next_char
  else
    pure jc

/-- `assert_type_isnt_string_null_or_bool` -/
def assert_type_isnt_string_null_or_bool : Except Stop Unit :=
  assert (jc.type ≠ .FALSE && jc.type ≠ .TRUE && jc.type ≠ .NULL && jc.type ≠ .STRING)

/-- The actions of the transition table, the cases of the `switch` in `JSON_parser_char`. -/
def perform : Action → Except Stop (Parser D)
  | .UC => do
    let jc ← jc.decode_unicode_char
    return { jc with state := if jc.utf16_high_surrogate ≠ 0 then .D1 else .ST }
  | .EX => return { jc with escaped := true, state := .ES }
  | .MX => return { jc with type := .INTEGER, state := .MI }
  | .ZX => return { jc with type := .INTEGER, state := .ZE }
  | .IX => return { jc with type := .INTEGER, state := .IT }
  | .DE => do
    jc.assert_type_isnt_string_null_or_bool
    return { jc with type := .FLOAT, state := .E1 }
  | .DF => do
    jc.assert_type_isnt_string_null_or_bool
    assert (jc.parse_buffer.getLast? = some 0x2E)
    return { jc with parse_buffer := jc.parse_buffer.dropLast ++ [jc.decimal_point], type := .FLOAT, state := .FX }
  | .SB => do
    assert (jc.type = .NONE)
    return { jc with parse_buffer := [], type := .STRING, state := .ST }
  | .NU => do
    assert (jc.type = .NONE)
    return { jc with type := .NULL, state := .N1 }
  | .FA => do
    assert (jc.type = .NONE)
    return { jc with type := .FALSE, state := .F1 }
  | .TR => do
    assert (jc.type = .NONE)
    return { jc with type := .TRUE, state := .T1 }
  | .CE => do
    assert (jc.parse_buffer = [])
    assert (jc.type = .NONE)
    return { jc with comment := false, state := jc.before_comment_state }
  | .CB => do
    if !jc.allow_comments then
      rejected .NONE
    else
      let jc ← jc.parse_buffer_pop_back_char
      let jc ← jc.parse_parse_buffer lib
      assert (jc.parse_buffer = [])
      assert (jc.type ≠ .STRING)
      let before_comment_state :=
        if jc.stack.head? = some .ARRAY ∨ jc.stack.head? = some .OBJECT then
          if jc.state = .VA ∨ jc.state = .AR then jc.state else .OK
        else
          jc.state
      return { jc with before_comment_state, type := .NONE, state := .C1, comment := true }
  | .EO => do
    let jc ← jc.parse_buffer_clear.callback lib .OBJECT_END
    let jc ← jc.pop .KEY .NONE
    return { jc with state := .OK }
  | .OE => do
    let jc ← jc.parse_buffer_pop_back_char
    let jc ← jc.parse_parse_buffer lib
    let jc ← jc.callback lib .OBJECT_END
    let jc ← jc.pop .OBJECT .UNBALANCED_COLLECTION
    return { jc with type := .NONE, state := .OK }
  | .AE => do
    let jc ← jc.parse_buffer_pop_back_char
    let jc ← jc.parse_parse_buffer lib
    let jc ← jc.callback lib .ARRAY_END
    let jc ← jc.pop .ARRAY .UNBALANCED_COLLECTION
    return { jc with type := .NONE, state := .OK }
  | .OA => do
    let jc ← jc.parse_buffer_pop_back_char
    let jc ← jc.callback lib .OBJECT_BEGIN
    let jc ← jc.push .KEY
    assert (jc.type = .NONE)
    return { jc with state := .OB }
  | .AA => do
    let jc ← jc.parse_buffer_pop_back_char
    let jc ← jc.callback lib .ARRAY_BEGIN
    let jc ← jc.push .ARRAY
    assert (jc.type = .NONE)
    return { jc with state := .AR }
  | .SE => do
    let jc ← jc.parse_buffer_pop_back_char
    match jc.stack.head? with
    | some .KEY =>
      assert (jc.type = .STRING)
      let jc ← ({ jc with type := .NONE, state := .CO } : Parser D).callback lib (.KEY jc.parse_buffer)
      return jc.parse_buffer_clear
    | some .ARRAY | some .OBJECT =>
      assert (jc.type = .STRING)
      let jc ← jc.parse_parse_buffer lib
      return { jc with type := .NONE, state := .OK }
    | _ => rejected .NONE
  | .CM => do
    let jc ← jc.parse_buffer_pop_back_char
    let jc ← jc.parse_parse_buffer lib
    match jc.stack.head? with
    | some .OBJECT =>
      let jc ← jc.pop .OBJECT .NONE
      let jc ← jc.push .KEY
      assert (jc.type ≠ .STRING)
      return { jc with type := .NONE, state := .KE }
    | some .ARRAY =>
      assert (jc.type ≠ .STRING)
      return { jc with type := .NONE, state := .VA }
    | _ => rejected .NONE
  | .CL => do
    let jc ← jc.parse_buffer_pop_back_char
    let jc ← jc.pop .KEY .NONE
    let jc ← jc.push .OBJECT
    assert (jc.type = .NONE)
    return { jc with state := .VA }

end Parser

section Parse

variable {D : Type} (lib : Doubles D)

/-- `JSON_parser_char`, for a byte. -/
def JSON_parser_char (jc : Parser D) (next_char : UInt8) : Except Stop (Parser D) :=
  match char_class next_char with
  | none => rejected (set_error jc.state next_char)
  | some next_class => do
    let jc ← jc.add_char_to_parse_buffer next_char next_class
    match cell jc.state next_class with
    | .to next_state => return { jc with state := next_state }
    | .act action => jc.perform lib action
    | .error => rejected (set_error jc.state next_char)

/-- `JSON_parser_done` -/
def JSON_parser_done (jc : Parser D) : Except Stop (Parser D) :=
  if jc.state = .OK ∨ jc.state = .GO then jc.pop .DONE .UNBALANCED_COLLECTION else rejected .UNBALANCED_COLLECTION

/-- `cson_parse_opt` -/
structure ParseOpt where
  maxDepth : UInt16
  allowComments : Bool
  deriving DecidableEq, Repr

def cson_parse_opt_empty : ParseOpt where
  maxDepth := 25
  allowComments := false

/-- `new_JSON_parser` for the options, with the parser's own stack of modes up to its size and an
allocated one above. -/
def JSON_parser_new (decimal_point : UInt8) (opt : ParseOpt) : Parser D :=
  let depth := if opt.maxDepth = 0 then 1 else opt.maxDepth.toNat
  { ctx := { heap := [], root := none, node := none, stack := [], ckey := none }
    state := .GO
    before_comment_state := .GO
    type := .NONE
    escaped := false
    comment := false
    allow_comments := opt.allowComments
    decimal_point
    utf16_high_surrogate := 0
    depth
    stack := [.DONE]
    stack_capacity := depth
    stack_size := if depth ≤ JSON_PARSER_STACK_SIZE then JSON_PARSER_STACK_SIZE else depth
    parse_buffer := []
    parse_buffer_capacity := JSON_PARSER_PARSE_BUFFER_SIZE }

/-- `cson_json_err_to_rc` -/
def cson_json_err_to_rc : JsonError → CsonRc
  | .NONE => .OK
  | .INVALID_CHAR => .Parse_INVALID_CHAR
  | .INVALID_KEYWORD => .Parse_INVALID_KEYWORD
  | .INVALID_ESCAPE_SEQUENCE => .Parse_INVALID_ESCAPE_SEQUENCE
  | .INVALID_UNICODE_SEQUENCE => .Parse_INVALID_UNICODE_SEQUENCE
  | .INVALID_NUMBER => .Parse_INVALID_NUMBER
  | .NESTING_DEPTH_REACHED => .Parse_NESTING_DEPTH_REACHED
  | .UNBALANCED_COLLECTION => .Parse_UNBALANCED_COLLECTION
  | .EXPECTED_KEY => .Parse_EXPECTED_KEY
  | .EXPECTED_COLON => .Parse_EXPECTED_COLON

/-- The code that `cson_parse` makes of an error. -/
def parse_rc (error : JsonError) (errNo : CsonRc) : CsonRc :=
  if cson_json_err_to_rc error ≠ .OK then cson_json_err_to_rc error
  else if errNo ≠ .OK then errNo
  else .InternalError

/-- How `cson_parse` ends: with a value, with a code, or not at all. -/
inductive Parsed (D : Type) where
  | value (heap : Heap Bytes D) (root : Ref)
  | error (rc : CsonRc)
  | assertion
  | overrun

def stopped : Stop → Parsed D
  | .reject error errNo => .error (parse_rc error errNo)
  | .assertion => .assertion
  | .overrun => .overrun

/-- `cson_parse` of a source that holds the given bytes. -/
def cson_parse (decimal_point : UInt8) (opt : ParseOpt) (src : Bytes) : Parsed D :=
  match src.foldlM (JSON_parser_char lib) (JSON_parser_new decimal_point opt) >>= JSON_parser_done with
  | .error stop => stopped stop
  | .ok jc =>
    match jc.ctx.root with
    | some root => .value jc.ctx.heap root
    | none => .error .UnknownError

end Parse

end cson
