import PowerApi.Cson.Parser
import PowerApi.Cson.Tokens

namespace cson

/-! How the tokens of a text are spelled -/

/-- A byte that stands for itself in a string. -/
def is_plain (b : UInt8) : Bool := 0x20 ≤ b && b ≠ 0x22 && b ≠ 0x5C

def is_digit (b : UInt8) : Bool := 0x30 ≤ b && b ≤ 0x39

def is_hex (b : UInt8) : Bool := is_digit b || (0x41 ≤ b && b ≤ 0x46) || (0x61 ≤ b && b ≤ 0x66)

/-- The two bytes that begin an escape sequence. -/
abbrev backslash : UInt8 := 0x5C

abbrev quote : UInt8 := 0x22

/-- The escape sequences of one letter, and what they stand for. -/
def escapes : List (UInt8 × UInt8) :=
  [(0x62, 0x08), (0x66, 0x0C), (0x6E, 0x0A), (0x72, 0x0D), (0x74, 0x09), (0x22, 0x22), (0x5C, 0x5C), (0x2F, 0x2F)]

/-- The four digits of a `\uXXXX` sequence. -/
structure HexUnit where
  digits : Bytes
  length_eq : digits.length = 4
  all_hex : ∀ b ∈ digits, is_hex b = true

def HexUnit.value (u : HexUnit) : ℕ := utf16_unit u.digits

/-- The UTF-8 bytes of a code point. -/
def utf8 (uc : ℕ) : Bytes :=
  utf8_bytes uc (if uc < 0x80 then 0 else if uc < 0x800 then 1 else if uc < 0x10000 then 2 else 3)

/-- The text of a string between its quotes, and the string. -/
inductive Chars : Bytes → Bytes → Prop where
  | nil : Chars [] []
  | plain {b : UInt8} {text s : Bytes} (hb : is_plain b = true) (rest : Chars text s) : Chars (b :: text) (b :: s)
  | escape {e : UInt8 × UInt8} {text s : Bytes} (he : e ∈ escapes) (rest : Chars text s) :
    Chars (backslash :: e.1 :: text) (e.2 :: s)
  | unit {u : HexUnit} {text s : Bytes} (hhigh : IS_HIGH_SURROGATE u.value = false)
    (hlow : IS_LOW_SURROGATE u.value = false) (hchar : u.value ≠ 0xFFFF ∧ u.value ≠ 0xFFFE) (rest : Chars text s) :
    Chars (backslash :: 0x75 :: (u.digits ++ text)) (utf8 u.value ++ s)
  | pair {hi lo : HexUnit} {text s : Bytes} (hhigh : IS_HIGH_SURROGATE hi.value = true)
    (hlow : IS_LOW_SURROGATE lo.value = true) (rest : Chars text s) :
    Chars (backslash :: 0x75 :: (hi.digits ++ backslash :: 0x75 :: (lo.digits ++ text)))
      (utf8 (DECODE_SURROGATE_PAIR hi.value lo.value) ++ s)

/-- Digits, at least one of them and the first not zero, or zero alone. -/
inductive IntPart : Bytes → Prop where
  | zero : IntPart [0x30]
  | digits {d : UInt8} {ds : Bytes} (hd : is_digit d = true) (hne : d ≠ 0x30) (hds : ∀ b ∈ ds, is_digit b = true) :
    IntPart (d :: ds)

/-- The sign of a number. -/
def Sign (text : Bytes) : Prop := text = [] ∨ text = [0x2D]

/-- The exponent of a number. -/
inductive Exponent : Bytes → Prop where
  | mk {e : UInt8} {sign ds : Bytes} (he : e = 0x65 ∨ e = 0x45) (hsign : sign = [] ∨ sign = [0x2B] ∨ sign = [0x2D])
    (hne : ds ≠ []) (hds : ∀ b ∈ ds, is_digit b = true) : Exponent (e :: (sign ++ ds))

/-- A number with a point or an exponent, as it is written and with the point of the locale. After a zero
there has to be a point. There need not be a digit after it. -/
inductive Float (point : UInt8) : Bytes → Bytes → Prop where
  | point {sign int ds e : Bytes} (hsign : Sign sign) (hint : IntPart int) (hds : ∀ b ∈ ds, is_digit b = true)
    (he : e = [] ∨ Exponent e) : Float point (sign ++ (int ++ 0x2E :: (ds ++ e))) (sign ++ (int ++ point :: (ds ++ e)))
  | exponent {sign int e : Bytes} (hsign : Sign sign) (hint : IntPart int) (hne : int ≠ [0x30]) (he : Exponent e) :
    Float point (sign ++ (int ++ e)) (sign ++ (int ++ e))

section Spell

variable {D : Type} (lib : Doubles D) (point : UInt8)

/-- The value of a floating point number. Both zeros are the same one. -/
def Doubles.number (lib : Doubles D) (text : Bytes) : D :=
  if lib.is_zero (lib.strtod text) then lib.zero else lib.strtod text

/-- The spellings of a token. -/
inductive Spell : Token Bytes D → Bytes → Prop where
  | LCURB : Spell .LCURB [0x7B]
  | RCURB : Spell .RCURB [0x7D]
  | LSQRB : Spell .LSQRB [0x5B]
  | RSQRB : Spell .RSQRB [0x5D]
  | COLON : Spell .COLON [0x3A]
  | COMMA : Spell .COMMA [0x2C]
  | NULL : Spell (.SCALAR .null) (bytes ['n', 'u', 'l', 'l'])
  | TRUE : Spell (.SCALAR (.bool true)) (bytes ['t', 'r', 'u', 'e'])
  | FALSE : Spell (.SCALAR (.bool false)) (bytes ['f', 'a', 'l', 's', 'e'])
  | INTEGER {sign int : Bytes} (hsign : Sign sign) (hint : IntPart int) :
    Spell (.SCALAR (.integer (sscanf_lld (sign ++ int)))) (sign ++ int)
  | DOUBLE {text number : Bytes} (htext : Float point text number) : Spell (.SCALAR (.double (lib.number number))) text
  | STRING {text s : Bytes} (hchars : Chars text s) : Spell (.STRING (cson_new_string s)) (quote :: (text ++ [quote]))

/-- The texts that spell a sequence of tokens, with white space between them. -/
inductive Spells : List (Token Bytes D) → Bytes → Prop where
  | nil : Spells [] []
  | blank {b : UInt8} {tokens : List (Token Bytes D)} {text : Bytes} (hb : is_blank b = true)
    (rest : Spells tokens text) : Spells tokens (b :: text)
  | token {token : Token Bytes D} {tokens : List (Token Bytes D)} {spelling text : Bytes}
    (htoken : Spell lib point token spelling) (rest : Spells tokens text) : Spells (token :: tokens) (spelling ++ text)

/-- The texts that lead the machine that reads tokens from a state to a value. -/
def Lang (limit : ℕ) (c : Config Bytes D) (text : Bytes) (v : Value Bytes D) : Prop :=
  ∃ tokens c', Spells lib point tokens text ∧ c.run limit tokens = some c' ∧ c'.Final v

end Spell

/-! Reading a text from its beginning -/

section Lang

variable {D : Type} {lib : Doubles D} {point : UInt8} {limit : ℕ} {c : Config Bytes D} {text : Bytes} {v : Value Bytes D}

/-- A property of every byte can be checked on them all. -/
theorem forall_byte {p : UInt8 → Bool} (h : ((List.range 256).all fun n => p (UInt8.ofNat n)) = true) (b : UInt8) :
    p b = true := by
  have hb := List.all_eq_true.mp h b.toNat (List.mem_range.mpr b.toNat_lt)
  rwa [UInt8.ofNat_toNat] at hb

theorem is_digit_not_blank {b : UInt8} (hb : is_digit b = true) : is_blank b = false := by
  have h := @forall_byte (fun b => !is_digit b || !is_blank b) (by decide +kernel) b
  simpa [hb] using h

theorem IntPart.exists_cons {int : Bytes} (h : IntPart int) : ∃ d ds, int = d :: ds ∧ is_digit d = true := by
  cases h with
  | zero => exact ⟨_, _, rfl, rfl⟩
  | digits hd => exact ⟨_, _, rfl, hd⟩

/-- No token begins with white space. -/
theorem Spell.exists_cons {token : Token Bytes D} {spelling : Bytes} (h : Spell lib point token spelling) :
    ∃ b rest, spelling = b :: rest ∧ is_blank b = false := by
  have hsigned : ∀ sign int rest : Bytes, Sign sign → IntPart int →
      ∃ b rest', sign ++ (int ++ rest) = b :: rest' ∧ is_blank b = false := by
    intro sign int rest hsign hint
    obtain ⟨d, ds, rfl, hd⟩ := hint.exists_cons
    rcases hsign with rfl | rfl
    · exact ⟨d, _, rfl, is_digit_not_blank hd⟩
    · exact ⟨0x2D, _, rfl, by decide⟩
  cases h with
  | INTEGER hsign hint => simpa using hsigned _ _ [] hsign hint
  | DOUBLE htext =>
    cases htext with
    | point hsign hint => exact hsigned _ _ _ hsign hint
    | exponent hsign hint => exact hsigned _ _ _ hsign hint
  | STRING => exact ⟨quote, _, rfl, by decide⟩
  | _ => exact ⟨_, _, rfl, by decide⟩

theorem lang_nil : Lang lib point limit c [] v ↔ c.Final v := by
  constructor
  · rintro ⟨tokens, c', hspells, hrun, hfinal⟩
    generalize htext : ([] : Bytes) = text at hspells
    cases hspells with
    | nil =>
      obtain rfl := Option.some.inj hrun
      exact hfinal
    | blank => cases htext
    | token htoken rest =>
      obtain ⟨b, s, rfl, -⟩ := htoken.exists_cons
      cases htext
  · exact fun hfinal => ⟨[], c, .nil, rfl, hfinal⟩

theorem lang_blank {b : UInt8} (hb : is_blank b = true) : Lang lib point limit c (b :: text) v ↔ Lang lib point limit c text v := by
  constructor
  · rintro ⟨tokens, c', hspells, hrun, hfinal⟩
    generalize htext : b :: text = whole at hspells
    cases hspells with
    | nil => cases htext
    | blank _ rest =>
      obtain ⟨rfl, rfl⟩ := List.cons.inj htext
      exact ⟨tokens, c', rest, hrun, hfinal⟩
    | token htoken rest =>
      obtain ⟨b', s, rfl, hb'⟩ := htoken.exists_cons
      obtain ⟨rfl, -⟩ := List.cons.inj htext
      rw [hb] at hb'
      cases hb'
  · rintro ⟨tokens, c', hspells, hrun, hfinal⟩
    exact ⟨tokens, c', .blank hb hspells, hrun, hfinal⟩

/-- A text that does not begin with white space begins with a token. -/
theorem lang_cons {b : UInt8} (hb : is_blank b = false) :
    Lang lib point limit c (b :: text) v ↔
      ∃ token spelling rest c', b :: text = spelling ++ rest ∧ Spell lib point token spelling ∧
        c.step limit token = some c' ∧ Lang lib point limit c' rest v := by
  constructor
  · rintro ⟨tokens, final, hspells, hrun, hfinal⟩
    generalize htext : b :: text = whole at hspells
    cases hspells with
    | nil => cases htext
    | blank hb' rest =>
      obtain ⟨rfl, -⟩ := List.cons.inj htext
      rw [hb] at hb'
      cases hb'
    | token htoken rest =>
      rw [Config.run_cons, Option.bind_eq_some_iff] at hrun
      obtain ⟨mid, hstep, hrest⟩ := hrun
      exact ⟨_, _, _, mid, rfl, htoken, hstep, _, final, rest, hrest, hfinal⟩
  · rintro ⟨token, spelling, rest, c', htext, htoken, hstep, tokens, final, hspells, hrun, hfinal⟩
    rw [htext]
    refine ⟨token :: tokens, final, .token htoken hspells, ?_, hfinal⟩
    rw [Config.run_cons, hstep]
    exact hrun

end Lang

end cson
