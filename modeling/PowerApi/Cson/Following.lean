import PowerApi.Cson.Reading

open pwrapi.permissions (isspace)

namespace cson

/-! The classes of bytes that tokens begin with -/

section First

variable {S D : Type}

/-- The class of the first byte of a token. -/
def First : Token S D → Class → Prop
  | .LCURB, cls => cls = .LCURB
  | .RCURB, cls => cls = .RCURB
  | .LSQRB, cls => cls = .LSQRB
  | .RSQRB, cls => cls = .RSQRB
  | .COLON, cls => cls = .COLON
  | .COMMA, cls => cls = .COMMA
  | .STRING _, cls => cls = .QUOTE
  | .SCALAR .null, cls => cls = .LOW_N
  | .SCALAR (.bool true), cls => cls = .LOW_T
  | .SCALAR (.bool false), cls => cls = .LOW_F
  | .SCALAR _, cls => cls = .MINUS ∨ cls = .ZERO ∨ cls = .DIGIT

end First

section Following

variable {D : Type} {lib : Doubles D} {point : UInt8} {limit : ℕ} {c c' : Config Bytes D} {token : Token Bytes D}
  {text spelling : Bytes} {b : UInt8} {cls : Class} {v : Value Bytes D}

/-- The class of a digit. -/
theorem class_of_digit (b : UInt8) : is_digit b = true ↔
    (b = 0x30 ∧ char_class b = some .ZERO) ∨ (b ≠ 0x30 ∧ char_class b = some .DIGIT) := by
  have h := @forall_byte (fun b => is_digit b ==
    ((b = 0x30 && char_class b = some .ZERO) || (b ≠ 0x30 && char_class b = some .DIGIT))) (by decide +kernel) b
  rw [beq_iff_eq] at h
  rw [h]
  simp

theorem class_of_int {int rest : Bytes} (hint : IntPart int) :
    ∃ b text cls, int ++ rest = b :: text ∧ char_class b = some cls ∧ (cls = .ZERO ∨ cls = .DIGIT) := by
  obtain ⟨d, ds, rfl, hd⟩ := hint.exists_cons
  rcases (class_of_digit d).mp hd with ⟨-, hclass⟩ | ⟨-, hclass⟩
  · exact ⟨d, _, _, rfl, hclass, .inl rfl⟩
  · exact ⟨d, _, _, rfl, hclass, .inr rfl⟩

theorem class_of_number {sign int rest : Bytes} (hsign : Sign sign) (hint : IntPart int) :
    ∃ b text cls, sign ++ (int ++ rest) = b :: text ∧ char_class b = some cls ∧ (cls = .MINUS ∨ cls = .ZERO ∨ cls = .DIGIT) := by
  rcases hsign with rfl | rfl
  · obtain ⟨b, text, cls, htext, hclass, hkind⟩ := @class_of_int _ rest hint
    exact ⟨b, text, cls, htext, hclass, .inr hkind⟩
  · exact ⟨0x2D, _, .MINUS, rfl, by decide, .inl rfl⟩

/-- A token begins with a byte of its class. -/
theorem Spell.first (h : Spell lib point token spelling) :
    ∃ b rest cls, spelling = b :: rest ∧ char_class b = some cls ∧ First token cls := by
  cases h with
  | INTEGER hsign hint => simpa [First] using @class_of_number _ _ [] hsign hint
  | DOUBLE htext =>
    cases htext with
    | point hsign hint => exact class_of_number hsign hint
    | exponent hsign hint => exact class_of_number hsign hint
  | STRING => exact ⟨quote, _, .QUOTE, rfl, by decide, rfl⟩
  | _ => exact ⟨_, _, _, rfl, by decide, rfl⟩

theorem is_blank_iff (hclass : char_class b = some cls) : is_blank b = true ↔ cls = .SPACE ∨ cls = .WHITE := by
  simp [is_blank, hclass]

/-- A text is not in the language if no token that begins like it can come next. -/
theorem not_lang (hblank : is_blank b = false)
    (hstep : ∀ cls token, char_class b = some cls → First token cls → c.step limit token = none) :
    ¬ Lang lib point limit c (b :: text) v := by
  rw [lang_cons hblank]
  rintro ⟨token, spelling, rest, c', htext, htoken, hnext, -⟩
  obtain ⟨x, rest', cls, rfl, hclass, hfirst⟩ := htoken.first
  obtain ⟨rfl, -⟩ := List.cons.inj htext
  rw [hstep cls token hclass hfirst] at hnext
  cases hnext

theorem not_lang_none (hclass : char_class b = none) : ¬ Lang lib point limit c (b :: text) v :=
  not_lang (by simp [is_blank, hclass]) (by simp [hclass])

/-- Where a token can come next, the table has an entry for its first byte. -/
theorem cell_of_step (hstep : c.step limit token = some c') (hfirst : First token cls) :
    cell c.phase.state cls ≠ .error ∧ cell c.phase.state cls ≠ .act .CB := by
  cases token with
  | LCURB =>
    obtain rfl : cls = .LCURB := hfirst
    simp only [Config.step, Config.opens] at hstep
    split at hstep
    · next hphase => rcases hphase.1 with hp | hp | hp <;> rw [hp] <;> decide
    · cases hstep
  | LSQRB =>
    obtain rfl : cls = .LSQRB := hfirst
    simp only [Config.step, Config.opens] at hstep
    split at hstep
    · next hphase => rcases hphase.1 with hp | hp | hp <;> rw [hp] <;> decide
    · cases hstep
  | RCURB =>
    obtain rfl : cls = .RCURB := hfirst
    simp only [Config.step, Config.closes] at hstep
    split at hstep
    · cases hstep
    · split at hstep
      · next hphase => rcases hphase.2 with hp | hp <;> rw [hp] <;> decide
      · cases hstep
  | RSQRB =>
    obtain rfl : cls = .RSQRB := hfirst
    simp only [Config.step, Config.closes] at hstep
    split at hstep
    · cases hstep
    · split at hstep
      · next hphase => rcases hphase.2 with hp | hp <;> rw [hp] <;> decide
      · cases hstep
  | COLON =>
    obtain rfl : cls = .COLON := hfirst
    simp only [Config.step] at hstep
    split at hstep
    · next hp => rw [hp]; decide
    · cases hstep
  | COMMA =>
    obtain rfl : cls = .COMMA := hfirst
    simp only [Config.step] at hstep
    split at hstep
    · next hp _ => rw [hp]; decide
    · next hp _ => rw [hp]; decide
    · cases hstep
  | STRING s =>
    obtain rfl : cls = .QUOTE := hfirst
    simp only [Config.step] at hstep
    split at hstep
    · next hp _ => rw [hp]; decide
    · next hp _ => rw [hp]; decide
    · next hp => rw [hp]; decide
    · next hp => rw [hp]; decide
    · cases hstep
  | SCALAR w =>
    simp only [Config.step] at hstep
    split at hstep
    · next hphase =>
      have hcls : cls = .LOW_N ∨ cls = .LOW_T ∨ cls = .LOW_F ∨ cls = .MINUS ∨ cls = .ZERO ∨ cls = .DIGIT := by
        unfold First at hfirst
        split at hfirst <;> simp_all
      rcases hphase.1 with hp | hp <;> rw [hp] <;> rcases hcls with rfl | rfl | rfl | rfl | rfl | rfl <;> decide
    · cases hstep

/-- A token that is the only one to begin with its first byte. -/
theorem lang_word {word : Bytes} (hspell : Spell lib point token (b :: word))
    (honly : ∀ token' rest, Spell lib point token' (b :: rest) → token' = token ∧ rest = word) :
    Lang lib point limit c (b :: text) v ↔
      ∃ rest c', text = word ++ rest ∧ c.step limit token = some c' ∧ Lang lib point limit c' rest v := by
  have hblank : is_blank b = false := by
    obtain ⟨b', rest, heq, hb'⟩ := hspell.exists_cons
    rwa [(List.cons.inj heq).1]
  rw [lang_cons hblank]
  constructor
  · rintro ⟨token', spelling, rest, c', htext, htoken, hstep, hlang⟩
    obtain ⟨b', s, rfl, -⟩ := htoken.exists_cons
    obtain ⟨rfl, rfl⟩ := List.cons.inj htext
    obtain ⟨rfl, rfl⟩ := honly token' s htoken
    exact ⟨rest, c', rfl, hstep, hlang⟩
  · rintro ⟨rest, c', rfl, hstep, hlang⟩
    exact ⟨token, b :: word, rest, c', rfl, hspell, hstep, hlang⟩

/-- The tokens of brackets and of the two marks. -/
def punctuator : Class → Option (Token Bytes D)
  | .LCURB => some .LCURB
  | .RCURB => some .RCURB
  | .LSQRB => some .LSQRB
  | .RSQRB => some .RSQRB
  | .COLON => some .COLON
  | .COMMA => some .COMMA
  | _ => none

/-- The bytes of these classes. -/
theorem byte_of_class (b : UInt8) : match char_class b with
    | some .LCURB => b = 0x7B
    | some .RCURB => b = 0x7D
    | some .LSQRB => b = 0x5B
    | some .RSQRB => b = 0x5D
    | some .COLON => b = 0x3A
    | some .COMMA => b = 0x2C
    | some .ZERO => b = 0x30
    | some .MINUS => b = 0x2D
    | some .LOW_N => b = 0x6E
    | some .LOW_T => b = 0x74
    | some .LOW_F => b = 0x66
    | some .QUOTE => b = quote
    | _ => True := by
  have h := @forall_byte (fun b =>
    match char_class b with
    | some .LCURB => b = 0x7B
    | some .RCURB => b = 0x7D
    | some .LSQRB => b = 0x5B
    | some .RSQRB => b = 0x5D
    | some .COLON => b = 0x3A
    | some .COMMA => b = 0x2C
    | some .ZERO => b = 0x30
    | some .MINUS => b = 0x2D
    | some .LOW_N => b = 0x6E
    | some .LOW_T => b = 0x74
    | some .LOW_F => b = 0x66
    | some .QUOTE => b = quote
    | _ => true) (by decide +kernel) b
  split at h <;> simp_all

theorem spell_punctuator (hclass : char_class b = some cls) (hpunct : punctuator cls = some token) :
    Spell lib point token [b] := by
  have hbyte := byte_of_class b
  rw [hclass] at hbyte
  cases cls <;> cases hpunct <;> obtain rfl := hbyte <;> constructor

theorem spell_only (hclass : char_class b = some cls) (hpunct : punctuator cls = some token) {token' : Token Bytes D}
    {rest : Bytes} (htoken : Spell lib point token' (b :: rest)) : token' = token ∧ rest = [] := by
  obtain ⟨b', rest', cls', heq, hclass', hfirst⟩ := htoken.first
  obtain ⟨rfl, rfl⟩ := List.cons.inj heq
  obtain rfl : cls' = cls := Option.some.inj (hclass'.symm.trans hclass)
  generalize hspelling : b :: rest = spelling at htoken
  cases htoken with
  | INTEGER => rcases hfirst with rfl | rfl | rfl <;> cases hpunct
  | DOUBLE => rcases hfirst with rfl | rfl | rfl <;> cases hpunct
  | _ =>
    obtain rfl := hfirst
    cases hpunct <;> exact ⟨rfl, (List.cons.inj hspelling).2⟩

theorem lang_punctuators (hclass : char_class b = some cls) (hpunct : punctuator cls = some token) :
    Lang lib point limit c (b :: text) v ↔ ∃ c', c.step limit token = some c' ∧ Lang lib point limit c' text v := by
  rw [lang_word (spell_punctuator hclass hpunct) fun _ _ => spell_only hclass hpunct]
  simp

end Following

/-! What the parser does with them -/

section Accepts

variable {D : Type} {lib : Doubles D} {setup : Setup} {jc : Parser D} {c : Config Bytes D} {token : Token Bytes D}
  {text : Bytes} {b : UInt8} {cls : Class} {v : Value Bytes D} {n : ℕ}

/-- The byte is a token, and the parser does what the token does. -/
theorem accepts_outcome (hlater : ReadsRight lib setup v n) (hle : text.length ≤ n) (hclass : char_class b = some cls)
    (hpunct : punctuator cls = some token)
    (houtcome : Outcome setup (JSON_parser_char lib jc b) (c.step setup.limit token)) :
    Accepts lib jc (b :: text) v ↔ Lang lib setup.point setup.limit c (b :: text) v := by
  rw [lang_punctuators hclass hpunct]
  cases hnext : c.step setup.limit token with
  | none =>
    rw [hnext] at houtcome
    obtain ⟨stop, hstop, -⟩ := houtcome
    refine iff_of_false (not_accepts_cons hstop) ?_
    rintro ⟨c', hc', -⟩
    cases hc'
  | some c' =>
    rw [hnext] at houtcome
    obtain ⟨jc', hok, hbetween⟩ := houtcome
    rw [accepts_cons hok, (hlater text hle).1 jc' c' hbetween]
    simp only [Option.some.injEq, exists_eq_left']

/-- No token begins with the byte, and the parser rejects it. -/
theorem accepts_rejected (hquiet : Quiet jc) (hcomments : jc.allow_comments = false) (hclass : char_class b = some cls)
    (hblank : is_blank b = false) (hcell : cell jc.state cls = .error ∨ cell jc.state cls = .act .CB)
    (hphase : cell c.phase.state cls = .error ∨ cell c.phase.state cls = .act .CB) :
    Accepts lib jc (b :: text) v ↔ Lang lib setup.point setup.limit c (b :: text) v := by
  have hnot : ¬ (cls = .SPACE ∨ cls = .WHITE) := by
    rw [← is_blank_iff hclass, hblank]
    exact Bool.false_ne_true
  obtain ⟨error, errNo, hstop⟩ := @char_rejects D lib jc hquiet hcomments b cls hclass (.inr (not_or.mp hnot)) hcell
  refine iff_of_false (not_accepts_cons hstop) (not_lang hblank fun cls' token hclass' hfirst => ?_)
  obtain rfl : cls' = cls := Option.some.inj (hclass'.symm.trans hclass)
  cases hnext : c.step setup.limit token with
  | none => rfl
  | some c' =>
    obtain ⟨herror, hcb⟩ := cell_of_step hnext hfirst
    exact (hphase.elim herror hcb).elim

theorem accepts_none (hclass : char_class b = none) :
    Accepts lib jc (b :: text) v ↔ Lang lib setup.point setup.limit c (b :: text) v := by
  obtain ⟨error, errNo, hstop⟩ := @char_none D lib jc b hclass
  exact iff_of_false (not_accepts_cons hstop) (not_lang_none hclass)

/-- White space after a number is not part of it. -/
theorem sscanf_lld_blank (s : Bytes) (hb : is_blank b = true) : sscanf_lld (s ++ [b]) = sscanf_lld s := by
  have hbyte := @forall_byte (fun b => !is_blank b || (isspace (Char.ofNat b.toNat) && !(Char.ofNat b.toNat).isDigit)) (by decide +kernel) b
  simp only [hb, Bool.not_true, Bool.false_or, Bool.and_eq_true, Bool.not_eq_true'] at hbyte
  obtain ⟨hspace, hdigit⟩ := hbyte
  have hchars : chars (s ++ [b]) = chars s ++ [Char.ofNat b.toNat] := by simp [chars]
  rw [sscanf_lld, sscanf_lld, hchars, Scanf.scan_int_append_blank hspace hdigit]

/-- White space changes nothing between two tokens. -/
theorem Between.blank (h : Between setup jc c) (hclass : char_class b = some cls) (hblank : cls = .SPACE ∨ cls = .WHITE) :
    ∃ jc', JSON_parser_char lib jc b = .ok jc' ∧ Between setup jc' c := by
  have hadd := @add_blank_eq D jc b cls h.toQuiet h.type hblank
  have hcell : cell (jc.pushed []).state cls = .to jc.state := by
    show cell jc.state cls = _
    rw [h.state]
    cases c.phase <;> rcases hblank with rfl | rfl <;> rfl
  refine ⟨{ jc.pushed [] with state := jc.state }, ?_, ?_⟩
  · rw [char_of_add hclass hadd, hcell]
  · exact h.toQuiet.between (h.toTracks.pushed []) h.type h.state (by simp [Parser.pushed, h.buffer]) rfl rfl rfl h.surrogate

/-- White space ends the number or the keyword in the buffer. -/
theorem Settles.blank (h : Settles lib setup jc c) (hphase : c.phase = .after) (hinner : jc.type = .NONE ∨ c.frames ≠ [])
    (hclass : char_class b = some cls) (hblank : cls = .SPACE ∨ cls = .WHITE) (hcell : cell jc.state cls = .to .OK) :
    ∃ jc', JSON_parser_char lib jc b = .ok jc' ∧ Pending lib setup jc' c := by
  obtain ⟨ctx, hsettle, hbuilds⟩ := h.settled
  by_cases htype : jc.type = .NONE
  · have hadd := @add_blank_eq D jc b cls h.toQuiet htype hblank
    refine ⟨{ jc.pushed [] with state := .OK }, ?_, ⟨⟨?_, h.surrogate, h.wf, ⟨ctx, ?_, hbuilds⟩, h.modes, h.fixed,
      h.not_string⟩, rfl, hphase, hinner⟩⟩
    · rw [char_of_add hclass hadd]
      rw [show cell (jc.pushed []).state cls = .to .OK from hcell]
    · have hquiet := pushed_quiet h.toQuiet [] (Nat.zero_le _)
      exact ⟨hquiet.escaped, hquiet.comment, hquiet.room⟩
    · simpa [Parser.settle, htype, Parser.pushed, Parser.parse_buffer_reserve_for] using hsettle
  · refine ⟨{ jc.pushed [b] with state := .OK }, char_to h.toQuiet hclass (.inl htype) hcell, ⟨⟨?_, h.surrogate, h.wf,
      ⟨ctx, ?_, hbuilds⟩, h.modes, h.fixed, h.not_string⟩, rfl, hphase, hinner⟩⟩
    · have hquiet := pushed_quiet h.toQuiet [b] (Nat.le_refl _)
      exact ⟨hquiet.escaped, hquiet.comment, hquiet.room⟩
    · have hb : is_blank b = true := (is_blank_iff hclass).mpr hblank
      have hdouble := lib.strtod_append jc.parse_buffer [b] (by simpa using hb)
      have hinteger := sscanf_lld_blank jc.parse_buffer hb
      have hstring := h.not_string
      cases hkind : jc.type <;> simp_all [Parser.settle, Parser.pushed, Parser.parse_buffer_reserve_for]

/-- The byte ends a number or a keyword, or is wrong after it: the state goes on with it as if the value were
complete. -/
def ends (state : State) (b : UInt8) : Bool :=
  match char_class b with
  | none => true
  | some cls => cell state cls = cell .OK cls || (cell state cls = .error && cell .OK cls = .act .CB)

/-- After a value, whether it has been handed over or not. -/
theorem Settles.accepts_after (h : Settles lib setup jc c) (hcomments : setup.comments = false) (hphase : c.phase = .after)
    (hinner : jc.type = .NONE ∨ c.frames ≠ []) (hends : ends jc.state b = true) (hlater : ReadsRight lib setup v n)
    (hle : text.length ≤ n) : Accepts lib jc (b :: text) v ↔ Lang lib setup.point setup.limit c (b :: text) v := by
  cases hclass : char_class b with
  | none => exact accepts_none hclass
  | some cls =>
    simp only [ends, hclass, Bool.or_eq_true, Bool.and_eq_true, decide_eq_true_eq] at hends
    have hblank : cls = .SPACE ∨ cls = .WHITE → cell jc.state cls = .to .OK →
        (Accepts lib jc (b :: text) v ↔ Lang lib setup.point setup.limit c (b :: text) v) := by
      intro hcls hcell
      obtain ⟨jc', hok, hpending⟩ := h.blank hphase hinner hclass hcls hcell
      rw [accepts_cons hok, lang_blank ((is_blank_iff hclass).mpr hcls)]
      exact (hlater text hle).2 jc' c hpending
    have hact : ∀ action token, cell jc.state cls = .act action → cls ≠ .SPACE ∧ cls ≠ .WHITE →
        punctuator cls = some token → Outcome setup ((jc.pushed [b]).perform lib action) (c.step setup.limit token) →
        (Accepts lib jc (b :: text) v ↔ Lang lib setup.point setup.limit c (b :: text) v) := by
      intro action token hcell hcls hpunct houtcome
      refine accepts_outcome hlater hle hclass hpunct ?_
      rwa [char_act h.toQuiet hclass (.inr hcls) hcell]
    have hreject : ¬ (cls = .SPACE ∨ cls = .WHITE) → cell .OK cls = .error ∨ cell .OK cls = .act .CB →
        (Accepts lib jc (b :: text) v ↔ Lang lib setup.point setup.limit c (b :: text) v) := by
      intro hcls hcell
      refine accepts_rejected h.toQuiet (h.fixed.comments_eq.trans hcomments) hclass ?_ ?_ (by rw [hphase]; exact hcell)
      · rwa [← Bool.not_eq_true, is_blank_iff hclass]
      · rcases hends with heq | ⟨herror, -⟩
        · rwa [heq]
        · exact .inl herror
    cases cls with
    | SPACE => exact hblank (.inl rfl) (hends.elim id fun hand => by cases hand.2)
    | WHITE => exact hblank (.inr rfl) (hends.elim id fun hand => by cases hand.2)
    | RCURB =>
      exact hact .OE .RCURB (hends.elim id fun hand => by cases hand.2) (by simp) rfl (h.close false (.inl hphase) b)
    | RSQRB =>
      exact hact .AE .RSQRB (hends.elim id fun hand => by cases hand.2) (by simp) rfl (h.close true (.inl hphase) b)
    | COMMA => exact hact .CM .COMMA (hends.elim id fun hand => by cases hand.2) (by simp) rfl (h.comma hphase b)
    | _ => exact hreject (by simp) (by decide)

end Accepts

end cson
