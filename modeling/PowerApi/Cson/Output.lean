import PowerApi.Cson.Parser

namespace cson

/-! Characters -/

def cson_utfTrans1 : List UInt32 := List.flatten [
  [0x00, 0x01, 0x02, 0x03, 0x04, 0x05, 0x06, 0x07],
  [0x08, 0x09, 0x0a, 0x0b, 0x0c, 0x0d, 0x0e, 0x0f],
  [0x10, 0x11, 0x12, 0x13, 0x14, 0x15, 0x16, 0x17],
  [0x18, 0x19, 0x1a, 0x1b, 0x1c, 0x1d, 0x1e, 0x1f],
  [0x00, 0x01, 0x02, 0x03, 0x04, 0x05, 0x06, 0x07],
  [0x08, 0x09, 0x0a, 0x0b, 0x0c, 0x0d, 0x0e, 0x0f],
  [0x00, 0x01, 0x02, 0x03, 0x04, 0x05, 0x06, 0x07],
  [0x00, 0x01, 0x02, 0x03, 0x00, 0x01, 0x00, 0x00]]

/-- A byte that goes on with a character of UTF-8. -/
def is_trail (b : UInt8) : Bool := b &&& 0xC0 = 0x80

/-- What the bytes after the first one add to a character. The `int` wraps around. -/
def utf8_value (b : UInt8) (trail : Bytes) : UInt32 :=
  trail.foldl (fun c x => (c <<< 6) + (0x3F &&& x.toUInt32)) (cson_utfTrans1.getD (b.toNat - 0xC0) 0)

/-- `cson_utf8Read`, for a text that begins with a byte: the character, and the number of its bytes. -/
def cson_utf8Read (b : UInt8) (rest : Bytes) : UInt32 × ℕ :=
  if 0xC0 ≤ b then
    let trail := rest.takeWhile is_trail
    let c := utf8_value b trail
    (if c.toInt32 < 0x80 ∨ c &&& 0xFFFFF800 = 0xD800 ∨ c &&& 0xFFFFFFFE = 0xFFFE then 0xFFFD else c, trail.length + 1)
  else
    (b.toUInt32, 1)

/-- A code of the library. -/
abbrev failed {α : Type} (rc : CsonRc) : Except Stop α := .error (.reject .NONE rc)

/-- `sprintf` with `"\\u%04x"`. -/
def sprintf_u04x (ch : UInt32) : Bytes :=
  let digits := bytes (Nat.toDigits 16 ch.toNat)
  0x5C :: 0x75 :: (List.replicate (4 - digits.length) 0x30 ++ digits)

/-- The second byte of the escape sequence for a byte, if it has one. -/
def escape_of (escapeFwdSlash : Bool) (b : UInt8) : Option UInt8 :=
  if b = 0x09 then some 0x74
  else if b = 0x0D then some 0x72
  else if b = 0x0A then some 0x6E
  else if b = 0x0C then some 0x66
  else if b = 0x08 then some 0x62
  else if b = 0x2F then if escapeFwdSlash then some 0x2F else none
  else if b = 0x5C then some 0x5C
  else if b = 0x22 then some 0x22
  else none

/-- What is printed for a byte that is a character. -/
def print_byte (escapeFwdSlash : Bool) (b : UInt8) : Bytes :=
  match escape_of escapeFwdSlash b with
  | some e => [0x5C, e]
  | none => [b]

/-- The size of the buffer for a `\uXXXX` sequence. -/
abbrev UBLen : ℕ := 8

/-- The loop of `cson_str_to_json`, which prints a character in each turn. The length of a character is kept
in a byte. -/
def print_chars (escapeFwdSlash : Bool) : (fuel : ℕ) → Bytes → Except Stop Bytes
  | _, [] => .ok []
  | 0, _ => .ok []
  | fuel + 1, b :: rest =>
    let (ch, length) := cson_utf8Read b rest
    if ch = 0 then
      .ok []
    else do
      let clen := length % 256
      assert (clen ≠ 0)
      if clen = 1 then
        assert (b.toUInt32 = ch)
        return print_byte escapeFwdSlash b ++ (← print_chars escapeFwdSlash fuel rest)
      else
        let ubuf := sprintf_u04x ch
        if UBLen < ubuf.length + 1 then
          .error .overrun
        else if ubuf.length ≠ 6 then
          failed .RangeError
        else
          return ubuf ++ (← print_chars escapeFwdSlash fuel (rest.drop (clen - 1)))

def cson_str_to_json (escapeFwdSlash : Bool) (str : Bytes) : Except Stop Bytes :=
  if str.head?.getD 0 = 0 then
    .ok [0x22, 0x22]
  else do
    return 0x22 :: ((← print_chars escapeFwdSlash str.length str) ++ [0x22])

/-! Numbers -/

/-- `sprintf` with `"%lld"`. -/
def cson_output_integer (n : Int64) : Bytes := bytes (Scanf.print_int 0 n.toInt)

/-- The size of the buffer for a floating point number. -/
abbrev BufLen : ℕ := 128

/-- The loop that takes off the zeros at the end, of the bytes in reverse, but not the one after the point. -/
def strip_zeros : Bytes → Bytes
  | 0x30 :: p :: rest => if p ≠ 0x2E then strip_zeros (p :: rest) else 0x30 :: p :: rest
  | s => s

def cson_output_double {D : Type} (lib : Doubles D) (d : D) : Except Stop Bytes :=
  let b := lib.sprintf d
  if BufLen < b.length + 1 then
    .error .overrun
  else if b = [] then
    failed .RangeError
  else
    .ok (strip_zeros b.reverse).reverse

/-! Values -/

/-- `cson_output_opt` -/
structure OutputOpt where
  indentation : UInt8
  maxDepth : UInt16
  addNewline : Bool
  addSpaceAfterColon : Bool
  indentSingleMemberValues : Bool
  escapeForwardSlashes : Bool
  deriving DecidableEq, Repr

def cson_output_opt_empty : OutputOpt where
  indentation := 0
  maxDepth := 25
  addNewline := false
  addSpaceAfterColon := false
  indentSingleMemberValues := false
  escapeForwardSlashes := false

section Output

variable (fmt : OutputOpt)

def cson_output_indent (blanks : UInt8) (depth : ℕ) : Bytes :=
  if blanks = 0 then []
  else 0x0A :: List.replicate (depth * blanks.toNat) (if blanks = 1 then 0x09 else 0x20)

/-- The items of a container one after the other, up to the first that fails. -/
def separated (separator : Bytes) : List (Except Stop Bytes) → Except Stop Bytes
  | [] => .ok []
  | [item] => item
  | item :: items => do return (← item) ++ (separator ++ (← separated separator items))

/-- `cson_output_array` and `cson_output_object`, with the brackets and the items of the container. -/
def cson_output_container (level : ℕ) (first last : UInt8) (items : List (Except Stop Bytes)) : Except Stop Bytes :=
  if level > fmt.maxDepth.toNat then
    failed .RangeError
  else if items.isEmpty then
    .ok [first, last]
  else do
    let doIndent := fmt.indentation ≠ 0 && !(items.length = 1 && !fmt.indentSingleMemberValues)
    let inner := if doIndent then cson_output_indent fmt.indentation (level + 1) else []
    let outer := if doIndent then cson_output_indent fmt.indentation level else []
    return first :: (inner ++ ((← separated (0x2C :: inner) items) ++ (outer ++ [last])))

/-- A member of an object. -/
def cson_output_member (key : Bytes) (value : Except Stop Bytes) : Except Stop Bytes := do
  let key ← cson_str_to_json fmt.escapeForwardSlashes key
  return key ++ ((if fmt.addSpaceAfterColon then [0x3A, 0x20] else [0x3A]) ++ (← value))

variable {D : Type} (lib : Doubles D)

/-- `cson_output_impl`. The fuel is for the levels that are left, as containers below the maximal depth are not
printed. -/
def cson_output_impl (heap : Heap Bytes D) : (fuel level : ℕ) → Ref → Except Stop Bytes
  | 0, _, _ => failed .RangeError
  | fuel + 1, level, src =>
    match heap[src]? with
    | none => failed .ArgError
    | some .NULL => .ok (bytes ['n', 'u', 'l', 'l'])
    | some (.BOOL b) => .ok (if b then bytes ['t', 'r', 'u', 'e'] else bytes ['f', 'a', 'l', 's', 'e'])
    | some (.INTEGER n) => .ok (cson_output_integer n)
    | some (.DOUBLE d) => cson_output_double lib d
    | some (.STRING s) => cson_str_to_json fmt.escapeForwardSlashes s
    | some (.ARRAY list) =>
      cson_output_container fmt level 0x5B 0x5D (list.map fun v => cson_output_impl heap fuel (level + 1) v)
    | some (.OBJECT kvp) =>
      cson_output_container fmt level 0x7B 0x7D
        (kvp.map fun member => cson_output_member fmt member.1 (cson_output_impl heap fuel (level + 1) member.2))

/-- `cson_output`: the bytes that go to the destination, where it takes them all. -/
def cson_output (heap : Heap Bytes D) (src : Ref) : Except Stop Bytes := do
  return (← cson_output_impl fmt lib heap (fmt.maxDepth.toNat + 2) 0 src) ++ (if fmt.addNewline then [0x0A] else [])

end Output

end cson
