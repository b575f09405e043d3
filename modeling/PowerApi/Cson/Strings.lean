import PowerApi.Cson.Reading

namespace cson

/-! What can follow within a string -/

section InText

variable {D : Type} {lib : Doubles D} {point : UInt8} {limit : ℕ} {setup : Setup} {c : Config Bytes D} {s text : Bytes} {v : Value Bytes D}

/-- The text goes on with the rest of a string, of which `s` has been read, and with what follows it. -/
def InText (lib : Doubles D) (point : UInt8) (limit : ℕ) (c : Config Bytes D) (s text : Bytes) (v : Value Bytes D) : Prop :=
  ∃ body str rest c', text = body ++ quote :: rest ∧ Chars body str ∧
    c.step limit (.STRING (cson_new_string (s ++ str))) = some c' ∧ Lang lib point limit c' rest v

theorem quote_not_plain : is_plain quote = false := by decide

theorem backslash_not_plain : is_plain backslash = false := by decide

theorem inText_nil : ¬ InText lib point limit c s [] v := by
  rintro ⟨body, str, rest, c', htext, -⟩
  cases body <;> cases htext

theorem inText_quote : InText lib point limit c s (quote :: text) v ↔
    ∃ c', c.step limit (.STRING (cson_new_string s)) = some c' ∧ Lang lib point limit c' text v := by
  constructor
  · rintro ⟨body, str, rest, c', htext, hchars, hstep, hlang⟩
    cases hchars with
    | nil =>
      obtain ⟨-, rfl⟩ := List.cons.inj htext
      exact ⟨c', by simpa using hstep, hlang⟩
    | plain hb =>
      obtain ⟨rfl, -⟩ := List.cons.inj htext
      rw [quote_not_plain] at hb
      cases hb
    | _ =>
      obtain ⟨hquote, -⟩ := List.cons.inj htext
      exact absurd hquote (by decide)
  · rintro ⟨c', hstep, hlang⟩
    exact ⟨[], [], text, c', rfl, .nil, by simpa using hstep, hlang⟩

theorem inText_plain {b : UInt8} (hb : is_plain b = true) :
    InText lib point limit c s (b :: text) v ↔ InText lib point limit c (s ++ [b]) text v := by
  constructor
  · rintro ⟨body, str, rest, c', htext, hchars, hstep, hlang⟩
    cases hchars with
    | nil =>
      obtain ⟨rfl, -⟩ := List.cons.inj htext
      rw [quote_not_plain] at hb
      cases hb
    | plain _ hrest =>
      obtain ⟨rfl, rfl⟩ := List.cons.inj htext
      exact ⟨_, _, rest, c', rfl, hrest, by simpa using hstep, hlang⟩
    | _ =>
      obtain ⟨rfl, -⟩ := List.cons.inj htext
      rw [backslash_not_plain] at hb
      cases hb
  · rintro ⟨body, str, rest, c', rfl, hchars, hstep, hlang⟩
    exact ⟨b :: body, b :: str, rest, c', rfl, .plain hb hchars, by simpa using hstep, hlang⟩

theorem inText_other {b : UInt8} (hplain : is_plain b = false) (hquote : b ≠ quote) (hback : b ≠ backslash) :
    ¬ InText lib point limit c s (b :: text) v := by
  rintro ⟨body, str, rest, c', htext, hchars, -⟩
  cases hchars with
  | nil => exact hquote (List.cons.inj htext).1
  | plain hb =>
    obtain ⟨rfl, -⟩ := List.cons.inj htext
    rw [hplain] at hb
    cases hb
  | _ => exact hback (List.cons.inj htext).1

theorem inText_backslash_nil : ¬ InText lib point limit c s [backslash] v := by
  rintro ⟨body, str, rest, c', htext, hchars, -⟩
  cases hchars with
  | nil => exact absurd (List.cons.inj htext).1 (by decide)
  | plain hb =>
    obtain ⟨rfl, -⟩ := List.cons.inj htext
    rw [backslash_not_plain] at hb
    cases hb
  | _ => cases (List.cons.inj htext).2

/-- What an escape sequence of one letter is. -/
theorem escapes_fst_inj : ∀ e ∈ escapes, ∀ e' ∈ escapes, e.1 = e'.1 → e = e' := by simp [escapes]

theorem escapes_ne_u : ∀ e ∈ escapes, e.1 ≠ 0x75 := by simp [escapes]

theorem inText_escape {e : UInt8 × UInt8} (he : e ∈ escapes) :
    InText lib point limit c s (backslash :: e.1 :: text) v ↔ InText lib point limit c (s ++ [e.2]) text v := by
  constructor
  · rintro ⟨body, str, rest, c', htext, hchars, hstep, hlang⟩
    cases hchars with
    | nil => exact absurd (List.cons.inj htext).1 (by decide)
    | plain hb =>
      obtain ⟨rfl, -⟩ := List.cons.inj htext
      rw [backslash_not_plain] at hb
      cases hb
    | @escape e' _ _ he' hrest =>
      obtain ⟨-, htext⟩ := List.cons.inj htext
      obtain ⟨hfst, rfl⟩ := List.cons.inj htext
      obtain rfl := escapes_fst_inj e he e' he' hfst
      exact ⟨_, _, rest, c', rfl, hrest, by simpa using hstep, hlang⟩
    | _ => exact absurd (List.cons.inj (List.cons.inj htext).2).1 (escapes_ne_u e he)
  · rintro ⟨body, str, rest, c', rfl, hchars, hstep, hlang⟩
    exact ⟨_, _, rest, c', rfl, .escape he hchars, by simpa using hstep, hlang⟩

theorem inText_escape_other {b : UInt8} (he : ∀ e ∈ escapes, e.1 ≠ b) (hu : b ≠ 0x75) :
    ¬ InText lib point limit c s (backslash :: b :: text) v := by
  rintro ⟨body, str, rest, c', htext, hchars, -⟩
  cases hchars with
  | nil => exact absurd (List.cons.inj htext).1 (by decide)
  | plain hb =>
    obtain ⟨rfl, -⟩ := List.cons.inj htext
    rw [backslash_not_plain] at hb
    cases hb
  | escape he' => exact he _ he' (List.cons.inj (List.cons.inj htext).2).1.symm
  | _ => exact hu (List.cons.inj (List.cons.inj htext).2).1

/-- A character above the first plane, or one that is a single unit. -/
theorem inText_unicode : InText lib point limit c s (backslash :: 0x75 :: text) v ↔
    ∃ (u : HexUnit) (rest : Bytes), text = u.digits ++ rest ∧
      ((IS_HIGH_SURROGATE u.value = false ∧ IS_LOW_SURROGATE u.value = false ∧ (u.value ≠ 0xFFFF ∧ u.value ≠ 0xFFFE) ∧
        InText lib point limit c (s ++ utf8 u.value) rest v) ∨
      (IS_HIGH_SURROGATE u.value = true ∧ ∃ (lo : HexUnit) (rest' : Bytes),
        rest = backslash :: 0x75 :: (lo.digits ++ rest') ∧ IS_LOW_SURROGATE lo.value = true ∧
        InText lib point limit c (s ++ utf8 (DECODE_SURROGATE_PAIR u.value lo.value)) rest' v)) := by
  constructor
  · rintro ⟨body, str, rest, c', htext, hchars, hstep, hlang⟩
    cases hchars with
    | nil => exact absurd (List.cons.inj htext).1 (by decide)
    | plain hb =>
      obtain ⟨rfl, -⟩ := List.cons.inj htext
      rw [backslash_not_plain] at hb
      cases hb
    | escape he => exact absurd (List.cons.inj (List.cons.inj htext).2).1.symm (escapes_ne_u _ he)
    | @unit u body str hhigh hlow hchar hrest =>
      obtain rfl := (List.cons.inj (List.cons.inj htext).2).2
      exact ⟨u, body ++ quote :: rest, by simp, .inl ⟨hhigh, hlow, hchar, body, str, rest, c', rfl, hrest,
        by simpa using hstep, hlang⟩⟩
    | @pair hi lo body str hhigh hlow hrest =>
      obtain rfl := (List.cons.inj (List.cons.inj htext).2).2
      exact ⟨hi, backslash :: 0x75 :: (lo.digits ++ (body ++ quote :: rest)), by simp, .inr ⟨hhigh, lo,
        body ++ quote :: rest, rfl, hlow, body, str, rest, c', rfl, hrest, by simpa using hstep, hlang⟩⟩
  · rintro ⟨u, rest, rfl, ⟨hhigh, hlow, hchar, body, str, rest, c', rfl, hchars, hstep, hlang⟩ |
      ⟨hhigh, lo, rest', rfl, hlow, body, str, rest, c', rfl, hchars, hstep, hlang⟩⟩
    · exact ⟨_, _, rest, c', by simp, .unit hhigh hlow hchar hchars, by simpa using hstep, hlang⟩
    · exact ⟨_, _, rest, c', by simp, .pair hhigh hlow hchars, by simpa using hstep, hlang⟩

end InText

/-! The parser within a string -/

section InString

variable {D : Type} {lib : Doubles D} {limit : ℕ} {setup : Setup} {jc : Parser D} {c : Config Bytes D} {s text : Bytes} {surrogate : ℕ}
  {v : Value Bytes D}

/-- The parser has read a part of a string, and perhaps the first half of a pair of surrogates. -/
structure InString (setup : Setup) (jc : Parser D) (c : Config Bytes D) (s : Bytes) (surrogate : ℕ) : Prop extends
    Tracks setup jc c, Quiet jc where
  type : jc.type = .STRING
  surrogate_eq : jc.utf16_high_surrogate = surrogate
  buffer : jc.parse_buffer = s

theorem InString.pushed (h : InString setup jc c s surrogate) (b : UInt8) (state : State) :
    InString setup { jc.pushed [b] with state } c (s ++ [b]) surrogate where
  toTracks := ⟨h.wf, h.builds, h.modes, h.fixed⟩
  escaped := h.escaped
  comment := h.comment
  room := (pushed_quiet h.toQuiet [b] (Nat.le_refl _)).room
  type := h.type
  surrogate_eq := h.surrogate_eq
  buffer := congrArg (· ++ [b]) h.buffer

theorem InString.goto (h : InString setup jc c s surrogate) (state : State) : InString setup { jc with state } c s surrogate where
  toTracks := ⟨h.wf, h.builds, h.modes, h.fixed⟩
  toQuiet := ⟨h.escaped, h.comment, h.room⟩
  type := h.type
  surrogate_eq := h.surrogate_eq
  buffer := h.buffer

theorem InString.typed (h : InString setup jc c s surrogate) : jc.type ≠ .NONE := by simp [h.type]

theorem InString.kept (h : InString setup jc c s surrogate) (cls : Class) :
    jc.type ≠ .NONE ∨ (cls ≠ .SPACE ∧ cls ≠ .WHITE) := .inl h.typed

/-- The classes of the bytes of a string. -/
theorem class_of_plain (b : UInt8) : if is_plain b then ∃ cls, char_class b = some cls ∧ cell .ST cls = .to .ST
    else b = quote ∨ b = backslash ∨ ∀ cls, char_class b = some cls → cell .ST cls = .error := by
  have h := @forall_byte (fun b => (char_class b).elim (!is_plain b) fun cls =>
    if is_plain b then cell .ST cls = .to .ST else b = quote || b = backslash || cell .ST cls = .error) (by decide +kernel) b
  cases hclass : char_class b with
  | none => simp_all
  | some cls => cases hplain : is_plain b <;> simp_all [or_assoc]

theorem char_class_quote : char_class quote = some .QUOTE := by decide

theorem char_class_backslash : char_class backslash = some .BACKS := by decide

/-- The classes of the digits of a `\uXXXX` sequence. -/
theorem class_of_hex (b : UInt8) : if is_hex b then ∃ cls, char_class b = some cls ∧ cell .U1 cls = .to .U2 ∧
      cell .U2 cls = .to .U3 ∧ cell .U3 cls = .to .U4 ∧ cell .U4 cls = .act .UC ∧ hex_value b < 16
    else ∀ cls, char_class b = some cls → cell .U1 cls = .error ∧ cell .U2 cls = .error ∧ cell .U3 cls = .error ∧
      cell .U4 cls = .error := by
  have h := @forall_byte (fun b => (char_class b).elim (!is_hex b) fun cls =>
    if is_hex b then cell .U1 cls = .to .U2 && cell .U2 cls = .to .U3 && cell .U3 cls = .to .U4 &&
      cell .U4 cls = .act .UC && decide (hex_value b < 16)
    else cell .U1 cls = .error && cell .U2 cls = .error && cell .U3 cls = .error && cell .U4 cls = .error) (by decide +kernel) b
  cases hclass : char_class b with
  | none => simp_all
  | some cls => cases hhex : is_hex b <;> simp_all

/-- The classes of the bytes after a backslash. -/
theorem class_of_escape (b : UInt8) : match Parser.escaped_char b with
    | none => (∀ e ∈ escapes, e.1 ≠ b) ∧ b ≠ 0x75
    | some chars => (b = 0x75 ∧ chars = [backslash, 0x75] ∧ char_class b = some .LOW_U) ∨
        ∃ e ∈ escapes, e.1 = b ∧ chars = [e.2] ∧ ∃ cls, char_class b = some cls ∧ cell .ES cls = .to .ST := by
  have h := @forall_byte (fun b =>
    match Parser.escaped_char b, char_class b with
    | none, _ => (escapes.all fun e => e.1 ≠ b) && b ≠ 0x75
    | some _, none => false
    | some chars, some cls => (b = 0x75 && chars = [backslash, 0x75] && cls = .LOW_U) ||
        escapes.any fun e => e.1 = b && chars = [e.2] && cell .ES cls = .to .ST) (by decide +kernel) b
  cases hescaped : Parser.escaped_char b with
  | none => simpa [hescaped] using h
  | some chars =>
    cases hclass : char_class b with
    | none => simp [hescaped, hclass] at h
    | some cls =>
      simp only [hescaped, hclass, Bool.or_eq_true, Bool.and_eq_true, decide_eq_true_eq, List.any_eq_true] at h
      rcases h with ⟨⟨hb, hchars⟩, rfl⟩ | ⟨e, he, ⟨hb, hchars⟩, hcell⟩
      · exact .inl ⟨hb, hchars, rfl⟩
      · exact .inr ⟨e, he, hb, hchars, cls, rfl, hcell⟩

theorem push_all {chars : Bytes} (hroom : jc.parse_buffer.length + chars.length + 1 ≤ jc.parse_buffer_capacity) :
    chars.foldlM Parser.parse_buffer_push_back_char jc = .ok { jc with parse_buffer := jc.parse_buffer ++ chars } := by
  induction chars generalizing jc with
  | nil => simp only [List.foldlM_nil, List.append_nil]; rfl
  | cons b chars ih =>
    simp only [List.length_cons] at hroom
    have hassert : assert (jc.parse_buffer.length + 1 + 1 ≤ jc.parse_buffer_capacity) = .ok () :=
      assert_true (decide_eq_true (by omega))
    have hpush : jc.parse_buffer_push_back_char b = .ok { jc with parse_buffer := jc.parse_buffer ++ [b] } := by
      rw [Parser.parse_buffer_push_back_char, hassert]
      rfl
    rw [List.foldlM_cons, hpush, ok_bind, ih (by simp only [List.length_append, List.length_singleton]; omega)]
    simp only [List.append_assoc, List.singleton_append]

/-- The parser after a backslash. -/
def Parser.escape (jc : Parser D) : Parser D := { jc.pushed [backslash] with escaped := true, state := .ES }

/-- After a backslash, what stands for the next character takes its place. -/
theorem add_escaped_eq (h : InString setup jc c s surrogate) (b : UInt8) (cls : Class) :
    ∃ popped, InString setup popped c s surrogate ∧ popped.state = .ES ∧ s.length + 2 < popped.parse_buffer_capacity ∧
      jc.escape.add_char_to_parse_buffer b cls =
        match Parser.escaped_char b with
        | none => rejected .INVALID_ESCAPE_SEQUENCE
        | some chars => chars.foldlM Parser.parse_buffer_push_back_char popped := by
  have hescape : jc.escape.parse_buffer = s ++ [backslash] := congrArg (· ++ [backslash]) h.buffer
  have hroom : jc.escape.parse_buffer.length < jc.escape.parse_buffer_capacity :=
    (pushed_quiet h.toQuiet [backslash] (Nat.le_refl _)).room
  have hreserved := room_reserved hroom
  generalize hjc : jc.escape.parse_buffer_reserve_for 1 = grown at hreserved
  have hbuffer : grown.parse_buffer = s ++ [backslash] := hjc ▸ hescape
  have hescaped : grown.escaped = true := hjc ▸ rfl
  rw [hescape, List.length_append, List.length_singleton] at hreserved
  have hassert : assert (grown.parse_buffer.length + 1 + 1 ≤ grown.parse_buffer_capacity) = .ok () := by
    apply assert_true
    rw [hbuffer, List.length_append, List.length_singleton]
    exact decide_eq_true hreserved
  have hpop : Parser.parse_buffer_pop_back_char { grown with escaped := false } =
      .ok { grown with escaped := false, parse_buffer := s } := by
    simp [Parser.parse_buffer_pop_back_char, hbuffer, assert, bind, Except.bind, pure, Except.pure]
  refine ⟨{ grown with escaped := false, parse_buffer := s }, ⟨⟨h.wf, ?_, ?_, ?_⟩, ⟨rfl, ?_, ?_⟩, ?_, ?_, rfl⟩, ?_, ?_, ?_⟩
  · exact hjc ▸ h.builds
  · exact hjc ▸ h.modes
  · exact hjc ▸ h.fixed
  · exact hjc ▸ h.comment
  · show s.length < grown.parse_buffer_capacity
    omega
  · exact hjc ▸ h.type
  · exact hjc ▸ h.surrogate_eq
  · exact hjc ▸ rfl
  · show s.length + 2 < grown.parse_buffer_capacity
    omega
  · rw [Parser.add_char_to_parse_buffer, hjc]
    cases hchars : Parser.escaped_char b <;>
      simp only [hescaped, if_true, Parser.add_escaped_char_to_parse_buffer, hassert, hpop, ok_bind, hchars]

theorem add_escaped (h : InString setup jc c s surrogate) {b : UInt8} {chars : Bytes}
    (hchars : Parser.escaped_char b = some chars) (hlength : chars.length ≤ 2) (cls : Class) :
    ∃ jc', jc.escape.add_char_to_parse_buffer b cls = .ok jc' ∧ InString setup jc' c (s ++ chars) surrogate ∧
      jc'.state = .ES := by
  obtain ⟨popped, hin, hstate, hroom, hadd⟩ := add_escaped_eq h b cls
  have hlt : (s ++ chars).length < popped.parse_buffer_capacity := by
    rw [List.length_append]
    omega
  refine ⟨{ popped with parse_buffer := s ++ chars }, ?_, ⟨⟨hin.wf, hin.builds, hin.modes, hin.fixed⟩,
    ⟨hin.escaped, hin.comment, hlt⟩, hin.type, hin.surrogate_eq, rfl⟩, hstate⟩
  rw [hadd, hchars]
  simp only
  rw [push_all (by rw [hin.buffer]; omega), hin.buffer]

/-- A letter after the backslash that stands for a character. -/
theorem InString.escape (h : InString setup jc c s 0) {e : UInt8 × UInt8}
    (hchars : Parser.escaped_char e.1 = some [e.2]) {cls : Class} (hclass : char_class e.1 = some cls)
    (hcell : cell .ES cls = .to .ST) :
    ∃ jc', JSON_parser_char lib jc.escape e.1 = .ok jc' ∧ InString setup jc' c (s ++ [e.2]) 0 ∧ jc'.state = .ST := by
  obtain ⟨jc', hadd, hin, hstate⟩ := add_escaped h hchars (by simp) cls
  refine ⟨{ jc' with state := .ST }, ?_, hin.goto .ST, rfl⟩
  rw [char_of_add hclass hadd, hstate, hcell]

/-- The letter `u` after the backslash. -/
theorem InString.escape_u (h : InString setup jc c s surrogate) :
    ∃ jc', JSON_parser_char lib jc.escape 0x75 = .ok jc' ∧ InString setup jc' c (s ++ [backslash, 0x75]) surrogate ∧
      jc'.state = .U1 := by
  obtain ⟨jc', hadd, hin, hstate⟩ := @add_escaped D setup jc c s surrogate h 0x75 [backslash, 0x75] rfl (by simp) .LOW_U
  refine ⟨{ jc' with state := .U1 }, ?_, hin.goto .U1, rfl⟩
  have hclass : char_class 0x75 = some .LOW_U := by decide
  rw [char_of_add hclass hadd, hstate]
  rfl

theorem escape_rejects (h : InString setup jc c s surrogate) {b : UInt8} (hnone : Parser.escaped_char b = none) :
    Rejects (JSON_parser_char lib jc.escape b) := by
  cases hclass : char_class b with
  | none => exact char_none hclass
  | some cls =>
    obtain ⟨popped, -, -, -, hadd⟩ := add_escaped_eq h b cls
    rw [hnone] at hadd
    exact ⟨.INVALID_ESCAPE_SEQUENCE, .OK, by simp only [JSON_parser_char, hclass, hadd, error_bind]⟩

/-- The state before the last digits of a `\uXXXX` sequence. -/
def digit_state : ℕ → State
  | 0 => .U4
  | 1 => .U3
  | 2 => .U2
  | _ => .U1

/-- Digits are read up to the last one, which is decoded. -/
theorem read_digits {k : ℕ} (hk : k < 4) {ds : Bytes} (hlength : ds.length = k + 1) (hhex : ∀ b ∈ ds, is_hex b = true)
    (h : InString setup jc c s surrogate) (hstate : jc.state = digit_state k) :
    ∃ jc', InString setup jc' c (s ++ ds) surrogate ∧
      ∀ rest, Accepts lib jc (ds ++ rest) v ↔ ∃ jc'', jc'.perform lib .UC = .ok jc'' ∧ Accepts lib jc'' rest v := by
  induction k generalizing jc s ds with
  | zero =>
    obtain ⟨b, rfl⟩ := List.length_eq_one_iff.mp hlength
    have hb := class_of_hex b
    rw [if_pos (hhex b List.mem_cons_self)] at hb
    obtain ⟨cls, hclass, -, -, -, hcell, -⟩ := hb
    have hchar : JSON_parser_char lib jc b = (jc.pushed [b]).perform lib .UC :=
      char_act h.toQuiet hclass (h.kept cls) (hstate ▸ hcell)
    refine ⟨jc.pushed [b], h.pushed b jc.state, fun rest => ?_⟩
    cases hperform : (jc.pushed [b]).perform lib .UC with
    | error stop =>
      refine ⟨fun haccepts => absurd haccepts (not_accepts_cons (hchar.trans hperform)), ?_⟩
      rintro ⟨jc'', hok, -⟩
      cases hok
    | ok jc'' =>
      rw [List.singleton_append, accepts_cons (hchar.trans hperform)]
      constructor
      · exact fun haccepts => ⟨jc'', rfl, haccepts⟩
      · rintro ⟨_, hok, haccepts⟩
        obtain rfl := Except.ok.inj hok
        exact haccepts
  | succ k ih =>
    match ds, hlength with
    | b :: ds, hlength =>
      have hb := class_of_hex b
      rw [if_pos (hhex b List.mem_cons_self)] at hb
      obtain ⟨cls, hclass, h1, h2, h3, -, -⟩ := hb
      have hcell : cell jc.state cls = .to (digit_state k) := by
        rw [hstate]
        match k, hk with
        | 0, _ => exact h3
        | 1, _ => exact h2
        | 2, _ => exact h1
      have hchar := @char_to D lib jc h.toQuiet b cls _ hclass (h.kept cls) hcell
      obtain ⟨jc', hin, hrun⟩ := ih (Nat.lt_of_succ_lt hk) (Nat.succ.inj hlength)
        (fun x hx => hhex x (List.mem_cons_of_mem _ hx)) (h.pushed b (digit_state k)) rfl
      refine ⟨jc', by simpa using hin, fun rest => ?_⟩
      rw [List.cons_append, accepts_cons hchar]
      exact hrun rest

/-- The digits go on, or the text is not accepted. -/
theorem digit_of_accepts {k : ℕ} (hk : k < 4) (h : InString setup jc c s surrogate) (hstate : jc.state = digit_state k)
    (haccepts : Accepts lib jc text v) : ∃ b rest, text = b :: rest ∧ is_hex b = true := by
  cases text with
  | nil =>
    refine absurd haccepts (not_accepts_nil ?_ ?_) <;> rw [hstate] <;> unfold digit_state <;> split <;> simp
  | cons b rest =>
    have hb := class_of_hex b
    split at hb
    · next hhex => exact ⟨b, rest, rfl, hhex⟩
    · cases hclass : char_class b with
      | none =>
        obtain ⟨error, errNo, hstop⟩ := @char_none D lib jc b hclass
        exact absurd haccepts (not_accepts_cons hstop)
      | some cls =>
        obtain ⟨h1, h2, h3, h4⟩ := hb cls hclass
        have hcell : cell jc.state cls = .error := by
          rw [hstate]
          unfold digit_state
          split <;> assumption
        obtain ⟨error, errNo, hstop⟩ := @char_error D lib jc h.toQuiet b cls hclass (h.kept cls) hcell
        exact absurd haccepts (not_accepts_cons hstop)

/-- A text that is accepted within a `\uXXXX` sequence begins with the digits that are missing. -/
theorem digits_of_accepts {k : ℕ} (hk : k < 4) (h : InString setup jc c s surrogate) (hstate : jc.state = digit_state k)
    (haccepts : Accepts lib jc text v) :
    ∃ ds rest, text = ds ++ rest ∧ ds.length = k + 1 ∧ ∀ b ∈ ds, is_hex b = true := by
  induction k generalizing jc s text with
  | zero =>
    obtain ⟨b, rest, rfl, hhex⟩ := digit_of_accepts hk h hstate haccepts
    exact ⟨[b], rest, rfl, rfl, List.forall_mem_singleton.mpr hhex⟩
  | succ k ih =>
    obtain ⟨b, rest, rfl, hhex⟩ := digit_of_accepts hk h hstate haccepts
    have hb := class_of_hex b
    rw [if_pos hhex] at hb
    obtain ⟨cls, hclass, h1, h2, h3, -, -⟩ := hb
    have hcell : cell jc.state cls = .to (digit_state k) := by
      rw [hstate]
      match k, hk with
      | 0, _ => exact h3
      | 1, _ => exact h2
      | 2, _ => exact h1
    rw [accepts_cons (char_to h.toQuiet hclass (h.kept cls) hcell)] at haccepts
    obtain ⟨ds, rest', rfl, hlength, hall⟩ := ih (Nat.lt_of_succ_lt hk) (h.pushed b (digit_state k)) rfl haccepts
    exact ⟨b :: ds, rest', rfl, congrArg (· + 1) hlength, List.forall_mem_cons.mpr ⟨hhex, hall⟩⟩

/-! Decoding -/

theorem utf16_unit_lt {digits : Bytes} (hhex : ∀ b ∈ digits, hex_value b < 16) :
    utf16_unit digits < 16 ^ digits.length := by
  have hgen : ∀ (digits : Bytes) (uc k : ℕ), (∀ b ∈ digits, hex_value b < 16) → uc < 2 ^ (4 * k) →
      digits.foldl (fun uc p => (uc <<< 4) ||| hex_value p) uc < 2 ^ (4 * (k + digits.length)) := by
    intro digits
    induction digits with
    | nil => intro uc k _ huc; simpa using huc
    | cons b digits ih =>
      intro uc k hall huc
      have hpow : 2 ^ 4 ≤ 2 ^ (4 * (k + 1)) := Nat.pow_le_pow_right (by decide) (by omega)
      have hb : hex_value b < 2 ^ (4 * (k + 1)) := Nat.lt_of_lt_of_le (hall b List.mem_cons_self) hpow
      have hshift : uc <<< 4 < 2 ^ (4 * (k + 1)) := by
        rw [Nat.shiftLeft_eq, Nat.mul_add, Nat.pow_add]
        exact Nat.mul_lt_mul_of_pos_right huc (by decide)
      have hrest := ih _ (k + 1) (fun x hx => hall x (List.mem_cons_of_mem _ hx)) (Nat.or_lt_two_pow hshift hb)
      rw [List.foldl_cons, List.length_cons]
      rwa [show k + (digits.length + 1) = k + 1 + digits.length by omega]
  have h := hgen digits 0 0 hhex (by decide)
  rwa [Nat.zero_add, Nat.pow_mul] at h

theorem HexUnit.value_lt (u : HexUnit) : u.value < 0x10000 := by
  have h := @utf16_unit_lt u.digits fun b hb => by
    have hclass := class_of_hex b
    rw [if_pos (u.all_hex b hb)] at hclass
    obtain ⟨-, -, -, -, -, -, hvalue⟩ := hclass
    exact hvalue
  rwa [u.length_eq] at h

theorem length_utf8_bytes (uc trail_bytes : ℕ) : (utf8_bytes uc trail_bytes).length = trail_bytes + 1 := by
  simp [utf8_bytes]

/-- Decoding with the digits of a unit at the end of the buffer. -/
theorem decode_eq {u : HexUnit} (h : InString setup jc c (s ++ backslash :: 0x75 :: u.digits) surrogate) :
    jc.decode_unicode_char =
      let jc := { jc with parse_buffer := s }
      let uc := u.value
      if uc = 0xFFFF ∨ uc = 0xFFFE then rejected .INVALID_UNICODE_SEQUENCE
      else if jc.utf16_high_surrogate ≠ 0 then
        if IS_LOW_SURROGATE uc then
          ({ jc with utf16_high_surrogate := 0 } : Parser D).write_utf8 (DECODE_SURROGATE_PAIR jc.utf16_high_surrogate uc) 3
        else rejected .INVALID_UNICODE_SEQUENCE
      else if uc < 0x80 then jc.write_utf8 uc 0
      else if uc < 0x800 then jc.write_utf8 uc 1
      else if IS_HIGH_SURROGATE uc then .ok { jc with utf16_high_surrogate := uc }
      else if IS_LOW_SURROGATE uc then rejected .INVALID_UNICODE_SEQUENCE
      else jc.write_utf8 uc 2 := by
  have hlength : jc.parse_buffer.length = s.length + 6 := by
    rw [h.buffer, List.length_append, List.length_cons, List.length_cons, u.length_eq]
  have hdigits : jc.parse_buffer.drop (jc.parse_buffer.length - 4) = u.digits := by
    rw [hlength, h.buffer, show s.length + 6 - 4 = s.length + 2 by omega, ← List.drop_drop, List.drop_left]
    rfl
  have hbefore : jc.parse_buffer.take (jc.parse_buffer.length - 6) = s := by
    rw [hlength, h.buffer, Nat.add_sub_cancel, List.take_left]
  have hall : assert (u.digits.all fun p => hex_value p < 16) = .ok () := by
    refine assert_true (List.all_eq_true.mpr fun b hb => decide_eq_true ?_)
    have hclass := class_of_hex b
    rw [if_pos (u.all_hex b hb)] at hclass
    obtain ⟨-, -, -, -, -, -, hvalue⟩ := hclass
    exact hvalue
  have hcount : assert (jc.parse_buffer.length ≥ 6) = .ok () := assert_true (decide_eq_true (by omega))
  simp only [Parser.decode_unicode_char, hcount, hdigits, hall, hbefore, ok_bind]
  rfl

theorem InString.cut {rest : Bytes} (h : InString setup jc c (s ++ rest) surrogate) :
    InString setup { jc with parse_buffer := s } c s surrogate ∧ s.length + rest.length < jc.parse_buffer_capacity := by
  have hroom := h.room
  rw [h.buffer, List.length_append] at hroom
  exact ⟨⟨⟨h.wf, h.builds, h.modes, h.fixed⟩, ⟨h.escaped, h.comment, Nat.lt_of_le_of_lt (Nat.le_add_right _ _) hroom⟩,
    h.type, h.surrogate_eq, rfl⟩, hroom⟩

theorem InString.half (h : InString setup jc c s surrogate) (unit : ℕ) :
    InString setup { jc with utf16_high_surrogate := unit } c s unit :=
  ⟨⟨h.wf, h.builds, h.modes, h.fixed⟩, ⟨h.escaped, h.comment, h.room⟩, h.type, rfl, h.buffer⟩

theorem InString.write (h : InString setup jc c s surrogate) (uc : ℕ) {trail_bytes : ℕ}
    (hroom : s.length + (trail_bytes + 1) < jc.parse_buffer_capacity) :
    ∃ jc', jc.write_utf8 uc trail_bytes = .ok jc' ∧ InString setup jc' c (s ++ utf8_bytes uc trail_bytes) surrogate := by
  have hlength : (s ++ utf8_bytes uc trail_bytes).length < jc.parse_buffer_capacity := by
    rwa [List.length_append, length_utf8_bytes]
  refine ⟨{ jc with parse_buffer := s ++ utf8_bytes uc trail_bytes }, ?_, ?_⟩
  · simp only [Parser.write_utf8, h.buffer]
    exact if_pos hlength
  · exact ⟨⟨h.wf, h.builds, h.modes, h.fixed⟩, ⟨h.escaped, h.comment, hlength⟩, h.type, h.surrogate_eq, rfl⟩

theorem ge_of_high {uc : ℕ} (h : IS_HIGH_SURROGATE uc = true) : 0xD800 ≤ uc := by
  have heq : uc &&& 0xFC00 = 0xD800 := of_decide_eq_true h
  exact heq ▸ Nat.and_le_left

theorem ge_of_low {uc : ℕ} (h : IS_LOW_SURROGATE uc = true) : 0xDC00 ≤ uc := by
  have heq : uc &&& 0xFC00 = 0xDC00 := of_decide_eq_true h
  exact heq ▸ Nat.and_le_left

theorem utf8_pair (hi lo : ℕ) : utf8_bytes (DECODE_SURROGATE_PAIR hi lo) 3 = utf8 (DECODE_SURROGATE_PAIR hi lo) := by
  have hge : 0x10000 ≤ DECODE_SURROGATE_PAIR hi lo := Nat.le_add_left _ _
  rw [utf8, if_neg (by omega), if_neg (by omega), if_neg (by omega)]

/-- What the last digit of a unit leads to: the rest of the string, or the second half of a pair. -/
theorem InString.unit {u : HexUnit} (h : InString setup jc c (s ++ backslash :: 0x75 :: u.digits) 0) :
    if IS_HIGH_SURROGATE u.value then
      ∃ jc', jc.perform lib .UC = .ok jc' ∧ InString setup jc' c s u.value ∧ jc'.state = .D1
    else if IS_LOW_SURROGATE u.value = false ∧ u.value ≠ 0xFFFF ∧ u.value ≠ 0xFFFE then
      ∃ jc', jc.perform lib .UC = .ok jc' ∧ InString setup jc' c (s ++ utf8 u.value) 0 ∧ jc'.state = .ST
    else Rejects (jc.perform lib .UC) := by
  have hdecode := decode_eq h
  have hnone : jc.utf16_high_surrogate = 0 := h.surrogate_eq
  obtain ⟨hcut, hroom⟩ := h.cut
  rw [List.length_cons, List.length_cons, u.length_eq] at hroom
  simp only [hnone, ne_eq, not_true_eq_false, if_false] at hdecode
  have hwrite : ∀ trail_bytes ≤ 2, jc.decode_unicode_char = Parser.write_utf8 { jc with parse_buffer := s, utf16_high_surrogate := 0 } u.value trail_bytes →
      ∃ jc', jc.perform lib .UC = .ok jc' ∧ InString setup jc' c (s ++ utf8_bytes u.value trail_bytes) 0 ∧ jc'.state = .ST := by
    intro trail_bytes htrail heq
    obtain ⟨jc', hok, hin⟩ := (hcut.half 0).write u.value (show s.length + (trail_bytes + 1) < jc.parse_buffer_capacity by omega)
    refine ⟨{ jc' with state := .ST }, ?_, hin.goto .ST, rfl⟩
    simp only [Parser.perform, heq, hok, ok_bind, hin.surrogate_eq]
    rfl
  have hreject : jc.decode_unicode_char = rejected .INVALID_UNICODE_SEQUENCE → Rejects (jc.perform lib .UC) := by
    intro heq
    exact ⟨_, _, by simp only [Parser.perform, heq]; rfl⟩
  by_cases hhigh : IS_HIGH_SURROGATE u.value = true
  · have hge := ge_of_high hhigh
    have hchar : ¬ (u.value = 0xFFFF ∨ u.value = 0xFFFE) := by
      rintro (heq | heq) <;> rw [heq] at hhigh <;> revert hhigh <;> decide
    rw [if_pos hhigh]
    rw [if_neg hchar, if_neg (by omega), if_neg (by omega), if_pos hhigh] at hdecode
    refine ⟨{ jc with parse_buffer := s, utf16_high_surrogate := u.value, state := .D1 }, ?_, (hcut.half u.value).goto .D1, rfl⟩
    simp only [Parser.perform, hdecode, ok_bind, if_pos (show u.value ≠ 0 by omega)]
    rfl
  · rw [if_neg hhigh]
    by_cases hchar : u.value = 0xFFFF ∨ u.value = 0xFFFE
    · rw [if_neg (by rintro ⟨-, h1, h2⟩; exact hchar.elim h1 h2)]
      rw [if_pos hchar] at hdecode
      exact hreject hdecode
    · rw [if_neg hchar] at hdecode
      have hsmall : u.value < 0x800 → IS_LOW_SURROGATE u.value = false := by
        intro hlt
        by_contra hlow
        have := ge_of_low (Bool.of_not_eq_false hlow)
        omega
      by_cases h7 : u.value < 0x80
      · rw [if_pos ⟨hsmall (by omega), not_or.mp hchar⟩, utf8, if_pos h7]
        rw [if_pos h7] at hdecode
        exact hwrite 0 (by omega) hdecode
      rw [if_neg h7] at hdecode
      by_cases h11 : u.value < 0x800
      · rw [if_pos ⟨hsmall h11, not_or.mp hchar⟩, utf8, if_neg h7, if_pos h11]
        rw [if_pos h11] at hdecode
        exact hwrite 1 (by omega) hdecode
      rw [if_neg h11, if_neg hhigh] at hdecode
      by_cases hlow : IS_LOW_SURROGATE u.value = true
      · rw [if_neg (by simp [hlow])]
        rw [if_pos hlow] at hdecode
        exact hreject hdecode
      · rw [if_pos ⟨Bool.of_not_eq_true hlow, not_or.mp hchar⟩, utf8, if_neg h7, if_neg h11, if_pos u.value_lt]
        rw [if_neg hlow] at hdecode
        exact hwrite 2 (by omega) hdecode

/-- What the last digit of the second unit of a pair leads to. -/
theorem InString.pair {u : HexUnit} (h : InString setup jc c (s ++ backslash :: 0x75 :: u.digits) surrogate)
    (hsurrogate : surrogate ≠ 0) :
    if IS_LOW_SURROGATE u.value then
      ∃ jc', jc.perform lib .UC = .ok jc' ∧ InString setup jc' c (s ++ utf8 (DECODE_SURROGATE_PAIR surrogate u.value)) 0 ∧
        jc'.state = .ST
    else Rejects (jc.perform lib .UC) := by
  have hdecode := decode_eq h
  obtain ⟨hcut, hroom⟩ := h.cut
  rw [List.length_cons, List.length_cons, u.length_eq] at hroom
  simp only [h.surrogate_eq, hsurrogate, ne_eq, not_false_eq_true, if_true] at hdecode
  by_cases hlow : IS_LOW_SURROGATE u.value = true
  · have hchar : ¬ (u.value = 0xFFFF ∨ u.value = 0xFFFE) := by
      rintro (heq | heq) <;> rw [heq] at hlow <;> revert hlow <;> decide
    rw [if_neg hchar, if_pos hlow] at hdecode
    obtain ⟨jc', hok, hin⟩ := (hcut.half 0).write (DECODE_SURROGATE_PAIR surrogate u.value)
      (show s.length + (3 + 1) < jc.parse_buffer_capacity by omega)
    rw [utf8_pair] at hin
    rw [if_pos hlow]
    refine ⟨{ jc' with state := .ST }, ?_, hin.goto .ST, rfl⟩
    simp only [Parser.perform, hdecode, hok, ok_bind, hin.surrogate_eq]
    rfl
  · rw [if_neg hlow]
    rw [if_neg hlow, ite_self] at hdecode
    exact ⟨_, _, by simp only [Parser.perform, hdecode]; rfl⟩

/-! A string is read to its end -/

/-- The end of a string, whether it is a value or a key. -/
theorem InString.closed (h : InString setup jc c s 0)
    (hphase : c.phase = .value ∨ c.phase = .element ∨ c.phase = .member ∨ c.phase = .key) :
    ∃ jc' c', (jc.pushed [quote]).perform lib .SE = .ok jc' ∧ Between setup jc' c' ∧
      c.step setup.limit (.STRING (cson_new_string s)) = some c' := by
  have hstring : c.phase = .value ∨ c.phase = .element → c.step setup.limit (.STRING (cson_new_string s)) =
      some (c.add (.string (cson_new_string s))) := by
    rintro (hvalue | helement)
    · simp only [Config.step, hvalue]
    · simp only [Config.step, helement]
  rcases hphase with hvalue | helement | hkey
  · obtain ⟨jc', hok, hbetween⟩ := @Tracks.string_value _ lib _ _ _ h.toTracks h.toQuiet h.surrogate_eq h.type (.inl hvalue) quote
    rw [h.buffer] at hbetween
    exact ⟨jc', _, hok, hbetween, hstring (.inl hvalue)⟩
  · obtain ⟨jc', hok, hbetween⟩ := @Tracks.string_value _ lib _ _ _ h.toTracks h.toQuiet h.surrogate_eq h.type (.inr helement) quote
    rw [h.buffer] at hbetween
    exact ⟨jc', _, hok, hbetween, hstring (.inr helement)⟩
  · obtain ⟨jc', c', hok, hbetween, hstep⟩ := @Tracks.string_key _ lib _ _ _ h.toTracks h.toQuiet h.surrogate_eq h.type hkey quote
    rw [h.buffer] at hstep
    exact ⟨jc', c', hok, hbetween, hstep⟩

/-- The second unit of a pair. -/
theorem InString.accepts_pair (h : InString setup jc c s surrogate) (hcomments : setup.comments = false)
    (hsurrogate : surrogate ≠ 0) (hstate : jc.state = .D1)
    (hrest : ∀ rest : Bytes, rest.length < text.length → ∀ (jc : Parser D) (s : Bytes), InString setup jc c s 0 → jc.state = .ST →
      (Accepts lib jc rest v ↔ InText lib setup.point setup.limit c s rest v)) :
    Accepts lib jc text v ↔ ∃ (lo : HexUnit) (rest : Bytes), text = backslash :: 0x75 :: (lo.digits ++ rest) ∧
      IS_LOW_SURROGATE lo.value = true ∧
      InText lib setup.point setup.limit c (s ++ utf8 (DECODE_SURROGATE_PAIR surrogate lo.value)) rest v := by
  have hD1 : ∀ x, leads jc.state backslash .D2 x = true := by
    rw [hstate]
    exact forall_byte (by decide +kernel)
  have hD2 : ∀ x, leads .D2 0x75 .U1 x = true := forall_byte (by decide +kernel)
  have hfirst := h.pushed backslash .D2
  have hsecond := hfirst.pushed 0x75 .U1
  rw [List.append_assoc, List.singleton_append] at hsecond
  rw [accepts_only h.toQuiet (h.fixed.comments_eq.trans hcomments) h.typed hD1 (by simp [hstate]) (by simp [hstate])]
  have hstep : ∀ rest, Accepts lib { jc.pushed [backslash] with state := .D2 } rest v ↔ _ := fun rest =>
    accepts_only hfirst.toQuiet (hfirst.fixed.comments_eq.trans hcomments) hfirst.typed hD2 (by simp) (by simp)
  simp only [hstep]
  have hunit : ∀ (lo : HexUnit) (rest : Bytes), text = backslash :: 0x75 :: (lo.digits ++ rest) →
      (Accepts lib { Parser.pushed { jc.pushed [backslash] with state := .D2 } [0x75] with state := .U1 } (lo.digits ++ rest) v ↔
        IS_LOW_SURROGATE lo.value = true ∧
        InText lib setup.point setup.limit c (s ++ utf8 (DECODE_SURROGATE_PAIR surrogate lo.value)) rest v) := by
    rintro lo rest rfl
    obtain ⟨jc', hin, hrun⟩ := @read_digits D lib setup _ c _ surrogate v 3 (by omega) lo.digits lo.length_eq lo.all_hex hsecond rfl
    have hpair := @InString.pair D lib setup jc' c s surrogate lo (by simpa using hin) hsurrogate
    rw [hrun rest]
    split at hpair
    · next hlow =>
      obtain ⟨jc'', hok, hin', hST⟩ := hpair
      rw [hok, ← hrest rest (by simp only [List.length_cons, List.length_append]; omega) jc'' _ hin' hST]
      constructor
      · rintro ⟨_, heq, haccepts⟩
        obtain rfl := Except.ok.inj heq
        exact ⟨hlow, haccepts⟩
      · exact fun ⟨_, haccepts⟩ => ⟨jc'', rfl, haccepts⟩
    · next hlow =>
      obtain ⟨error, errNo, hstop⟩ := hpair
      rw [hstop]
      constructor
      · rintro ⟨_, heq, -⟩
        cases heq
      · exact fun ⟨hlow', _⟩ => absurd hlow' hlow
  constructor
  · rintro ⟨rest, rfl, rest', rfl, haccepts⟩
    obtain ⟨ds, rest, rfl, hlength, hall⟩ := @digits_of_accepts D lib setup _ c _ _ surrogate v 3 (by omega) hsecond rfl haccepts
    exact ⟨⟨ds, hlength, hall⟩, rest, rfl, (hunit ⟨ds, hlength, hall⟩ rest rfl).mp haccepts⟩
  · rintro ⟨lo, rest, htext, hlow, hin⟩
    exact ⟨_, htext, _, rfl, (hunit lo rest htext).mpr ⟨hlow, hin⟩⟩

/-- The first unit of a pair, or a unit alone. -/
theorem InString.accepts_unit (h : InString setup jc c (s ++ [backslash, 0x75]) 0) (hcomments : setup.comments = false)
    (hstate : jc.state = .U1)
    (hrest : ∀ rest : Bytes, rest.length < text.length → ∀ (jc : Parser D) (s : Bytes), InString setup jc c s 0 → jc.state = .ST →
      (Accepts lib jc rest v ↔ InText lib setup.point setup.limit c s rest v)) :
    Accepts lib jc text v ↔ InText lib setup.point setup.limit c s (backslash :: 0x75 :: text) v := by
  have hunit : ∀ (u : HexUnit) (rest : Bytes), text = u.digits ++ rest → (Accepts lib jc (u.digits ++ rest) v ↔
      (IS_HIGH_SURROGATE u.value = false ∧ IS_LOW_SURROGATE u.value = false ∧ (u.value ≠ 0xFFFF ∧ u.value ≠ 0xFFFE) ∧
        InText lib setup.point setup.limit c (s ++ utf8 u.value) rest v) ∨
      (IS_HIGH_SURROGATE u.value = true ∧ ∃ (lo : HexUnit) (rest' : Bytes),
        rest = backslash :: 0x75 :: (lo.digits ++ rest') ∧ IS_LOW_SURROGATE lo.value = true ∧
        InText lib setup.point setup.limit c (s ++ utf8 (DECODE_SURROGATE_PAIR u.value lo.value)) rest' v)) := by
    rintro u rest rfl
    have hshorter : rest.length < (u.digits ++ rest).length := by
      rw [List.length_append, u.length_eq]
      omega
    obtain ⟨jc', hin, hrun⟩ := @read_digits D lib setup _ c _ 0 v 3 (by omega) u.digits u.length_eq u.all_hex h hstate
    have hspec := @InString.unit D lib setup jc' c s u (by simpa using hin)
    rw [hrun rest]
    split at hspec
    · next hhigh =>
      obtain ⟨jc'', hok, hin', hD1⟩ := hspec
      have hne : u.value ≠ 0 := fun hzero => absurd (ge_of_high hhigh) (by simp [hzero])
      rw [hok, ← hin'.accepts_pair hcomments hne hD1 fun rest' hlt => hrest rest' (Nat.lt_trans hlt hshorter)]
      constructor
      · rintro ⟨_, heq, haccepts⟩
        obtain rfl := Except.ok.inj heq
        exact .inr ⟨hhigh, haccepts⟩
      · rintro (⟨hnot, -⟩ | ⟨-, haccepts⟩)
        · rw [hhigh] at hnot
          cases hnot
        · exact ⟨jc'', rfl, haccepts⟩
    · next hhigh =>
      have hsingle := Bool.of_not_eq_true hhigh
      split at hspec
      · next hchar =>
        obtain ⟨jc'', hok, hin', hST⟩ := hspec
        rw [hok, ← hrest rest hshorter jc'' _ hin' hST]
        constructor
        · rintro ⟨_, heq, haccepts⟩
          obtain rfl := Except.ok.inj heq
          exact .inl ⟨hsingle, hchar.1, hchar.2, haccepts⟩
        · rintro (⟨-, -, -, haccepts⟩ | ⟨hnot, -⟩)
          · exact ⟨jc'', rfl, haccepts⟩
          · exact absurd hnot hhigh
      · next hchar =>
        obtain ⟨error, errNo, hstop⟩ := hspec
        rw [hstop]
        constructor
        · rintro ⟨_, heq, -⟩
          cases heq
        · rintro (⟨-, hlow, hnot, -⟩ | ⟨hnot, -⟩)
          · exact absurd ⟨hlow, hnot⟩ hchar
          · exact absurd hnot hhigh
  rw [inText_unicode]
  constructor
  · intro haccepts
    obtain ⟨ds, rest, rfl, hlength, hall⟩ := @digits_of_accepts D lib setup jc c _ _ 0 v 3 (by omega) h hstate haccepts
    exact ⟨⟨ds, hlength, hall⟩, rest, rfl, (hunit ⟨ds, hlength, hall⟩ rest rfl).mp haccepts⟩
  · rintro ⟨u, rest, rfl, hcases⟩
    exact (hunit u rest rfl).mpr hcases

/-- A string is accepted if it is one, and what follows it is accepted. -/
theorem InString.accepts_iff {n : ℕ} (hcomments : setup.comments = false) (hlater : ReadsRight lib setup v n)
    (hphase : c.phase = .value ∨ c.phase = .element ∨ c.phase = .member ∨ c.phase = .key) :
    ∀ text : Bytes, text.length ≤ n + 1 → ∀ (jc : Parser D) (s : Bytes), InString setup jc c s 0 → jc.state = .ST →
      (Accepts lib jc text v ↔ InText lib setup.point setup.limit c s text v) := by
  intro text
  induction hlength : text.length using Nat.strong_induction_on generalizing text with
  | _ length ih =>
  subst hlength
  intro hle jc s h hstate
  have hshorter : ∀ rest : Bytes, rest.length < text.length → ∀ (jc : Parser D) (s : Bytes), InString setup jc c s 0 →
      jc.state = .ST → (Accepts lib jc rest v ↔ InText lib setup.point setup.limit c s rest v) :=
    fun rest hlt => ih rest.length hlt rest rfl (by omega)
  match text with
  | [] => exact iff_of_false (not_accepts_nil (by simp [hstate]) (by simp [hstate])) inText_nil
  | b :: text =>
    have hbyte := class_of_plain b
    split at hbyte
    · next hplain =>
      obtain ⟨cls, hclass, hcell⟩ := hbyte
      have hchar := @char_to D lib jc h.toQuiet b cls .ST hclass (h.kept cls) (by rw [hstate]; exact hcell)
      rw [accepts_cons hchar, inText_plain hplain]
      exact hshorter text (Nat.lt_succ_self _) _ _ (h.pushed b .ST) rfl
    · next hplain =>
      rcases hbyte with rfl | rfl | herror
      · have hchar := @char_act D lib jc h.toQuiet quote .QUOTE .SE char_class_quote (h.kept .QUOTE) (by rw [hstate]; rfl)
        obtain ⟨jc', c', hok, hbetween, hstep⟩ := @InString.closed _ lib _ _ _ _ h hphase
        rw [accepts_cons (hchar.trans hok), inText_quote, hstep]
        simp only [Option.some.injEq, exists_eq_left']
        exact (hlater text (Nat.le_of_succ_le_succ hle)).1 jc' c' hbetween
      · have hchar := @char_act D lib jc h.toQuiet backslash .BACKS .EX char_class_backslash (h.kept .BACKS) (by rw [hstate]; rfl)
        have hescape : JSON_parser_char lib jc backslash = .ok jc.escape := hchar
        rw [accepts_cons hescape]
        match text with
        | [] => exact iff_of_false (not_accepts_nil (by simp [Parser.escape]) (by simp [Parser.escape])) inText_backslash_nil
        | e :: text =>
          have hletter := class_of_escape e
          split at hletter
          · next hnone =>
            obtain ⟨error, errNo, hstop⟩ := @escape_rejects _ lib _ _ _ _ _ h _ hnone
            exact iff_of_false (not_accepts_cons hstop) (inText_escape_other hletter.1 hletter.2)
          · next chars hchars =>
            rcases hletter with ⟨rfl, -, -⟩ | ⟨e, he, rfl, rfl, cls, hclass, hcell⟩
            · obtain ⟨jc', hok, hin, hU1⟩ := @InString.escape_u _ lib _ _ _ _ _ h
              rw [accepts_cons hok]
              exact hin.accepts_unit hcomments hU1 fun rest hlt => hshorter rest (by simp only [List.length_cons]; omega)
            · obtain ⟨jc', hok, hin, hST⟩ := @InString.escape _ lib _ _ _ _ h _ hchars _ hclass hcell
              rw [accepts_cons hok, inText_escape he]
              exact hshorter text (by simp only [List.length_cons]; omega) jc' _ hin hST
      · have hquote : b ≠ quote := by
          rintro rfl
          exact absurd (herror _ char_class_quote) (by decide)
        have hback : b ≠ backslash := by
          rintro rfl
          exact absurd (herror _ char_class_backslash) (by decide)
        refine iff_of_false ?_ (inText_other (Bool.of_not_eq_true hplain) hquote hback)
        cases hclass : char_class b with
        | none =>
          obtain ⟨error, errNo, hstop⟩ := @char_none D lib jc b hclass
          exact not_accepts_cons hstop
        | some cls =>
          obtain ⟨error, errNo, hstop⟩ := @char_error D lib jc h.toQuiet b cls hclass (h.kept cls) (by rw [hstate]; exact herror cls hclass)
          exact not_accepts_cons hstop

end InString

end cson
