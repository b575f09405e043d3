import PowerApi.Cson.Accepts

namespace cson

/-! The states that the parser can be in -/

/-- The states within a number, with the type that the number has there. -/
def number_state : JsonType → State → Bool
  | .INTEGER, state => state = .MI || state = .ZE || state = .IT
  | .FLOAT, state => state = .FX || state = .FR || state = .E1 || state = .E2 || state = .E3
  | _, _ => false

/-- The states in which a number can end. -/
def number_end (state : State) : Bool := state = .ZE || state = .IT || state = .FX || state = .FR || state = .E3

/-- The states within a keyword, with its type. -/
def keyword_state : JsonType → State → Bool
  | .NULL, state => state = .N1 || state = .N2 || state = .N3
  | .TRUE, state => state = .T1 || state = .T2 || state = .T3
  | .FALSE, state => state = .F1 || state = .F2 || state = .F3 || state = .F4
  | _, _ => false

/-- The states within a string of which `s` has been read, and the first half of a pair of surrogates if there is one. -/
inductive StringState : State → Bytes → ℕ → Prop where
  | ST {s : Bytes} : StringState .ST s 0
  | D1 {s : Bytes} {surrogate : ℕ} (hne : surrogate ≠ 0) : StringState .D1 s surrogate
  | D2 {s : Bytes} {surrogate : ℕ} (hne : surrogate ≠ 0) : StringState .D2 (s ++ [backslash]) surrogate
  | digits {s ds : Bytes} {surrogate k : ℕ} (hk : k < 4) (hlength : ds.length + (k + 1) = 4)
    (hhex : ∀ b ∈ ds, is_hex b = true) : StringState (digit_state k) (s ++ backslash :: 0x75 :: ds) surrogate

/-- What holds of the parser after any text. -/
inductive Invariant {D : Type} (lib : Doubles D) (setup : Setup) (jc : Parser D) : Prop where
  | between {c : Config Bytes D} (h : Between setup jc c)
  | pending {c : Config Bytes D} (h : Pending lib setup jc c)
  | number {c : Config Bytes D} {type : JsonType} {s : Bytes} (h : InScalar setup jc c type s)
    (hphase : c.phase = .value ∨ c.phase = .element) (hstate : number_state type jc.state = true)
  | keyword {c : Config Bytes D} {type : JsonType} {s : Bytes} (h : InScalar setup jc c type s)
    (hphase : c.phase = .value ∨ c.phase = .element) (hstate : keyword_state type jc.state = true)
  | string {c : Config Bytes D} {s : Bytes} {surrogate : ℕ} (h : InString setup jc c s surrogate)
    (hphase : c.phase = .value ∨ c.phase = .element ∨ c.phase = .member ∨ c.phase = .key)
    (hstate : StringState jc.state s surrogate)
  | escape {c : Config Bytes D} {before : Parser D} {s : Bytes} (h : InString setup before c s 0)
    (hphase : c.phase = .value ∨ c.phase = .element ∨ c.phase = .member ∨ c.phase = .key) (heq : jc = before.escape)
  | comment {c : Config Bytes D} (h : Between setup { jc with comment := false, state := jc.before_comment_state } c)
    (hcomment : jc.comment = true) (hstate : jc.state = .C1 ∨ jc.state = .C2 ∨ jc.state = .C3)

section Keeps

variable {D : Type} {lib : Doubles D} {setup : Setup} {jc : Parser D} {c : Config Bytes D} {b : UInt8} {cls : Class}
  {type : JsonType} {s : Bytes} {surrogate : ℕ}

/-- A step keeps the invariant, or stops the parser without a fault of its own. -/
def Keeps (lib : Doubles D) (setup : Setup) : Except Stop (Parser D) → Prop
  | .ok jc => Invariant lib setup jc
  | .error stop => stop.Harmless setup

theorem Rejects.keeps {result : Except Stop (Parser D)} (h : Rejects result) : Keeps lib setup result := by
  obtain ⟨error, errNo, rfl⟩ := h
  trivial

theorem Outcome.keeps {result : Except Stop (Parser D)} {next : Option (Config Bytes D)} (h : Outcome setup result next) :
    Keeps lib setup result := by
  cases next with
  | none =>
    obtain ⟨stop, rfl, hharmless⟩ := h
    exact hharmless
  | some c =>
    obtain ⟨jc', rfl, hbetween⟩ := h
    exact .between hbetween

/-! Comments -/

/-- The beginning of a comment, which ends a number or a keyword. -/
theorem Settles.begin_comment (h : Settles lib setup jc c) (b : UInt8)
    (hbefore : (if jc.stack.head? = some .ARRAY ∨ jc.stack.head? = some .OBJECT then
      if jc.state = .VA ∨ jc.state = .AR then jc.state else .OK else jc.state) = c.phase.state) :
    Keeps lib setup ((jc.pushed [b]).perform lib .CB) := by
  obtain ⟨ctx, hparse, hbuilds⟩ := h.popped
  by_cases hallow : jc.allow_comments = true
  · have hpushed : (jc.pushed [b]).allow_comments = true := hallow
    have hstring : assert ((jc.pushed []).type ≠ .STRING) = .ok () := assert_true (decide_eq_true h.not_string)
    have hperform : (jc.pushed [b]).perform lib .CB = .ok { jc.pushed [] with
        ctx, parse_buffer := [], before_comment_state := c.phase.state, type := .NONE, state := .C1, comment := true } := by
      simp only [Parser.perform, hpushed, Bool.not_true, Bool.false_eq_true, if_false, pop_back_pushed, ok_bind, hparse, hstring]
      rw [← hbefore]
      rfl
    rw [hperform]
    refine .comment (c := c) ?_ rfl (.inl rfl)
    exact h.toQuiet.between ⟨h.wf, hbuilds, h.modes, h.fixed⟩ rfl rfl rfl rfl rfl h.comment.symm h.surrogate
  · have hpushed : (jc.pushed [b]).allow_comments = false := Bool.of_not_eq_true hallow
    refine Rejects.keeps ⟨.NONE, .OK, ?_⟩
    simp only [Parser.perform, hpushed]
    rfl

/-- Within a comment. -/
theorem Invariant.step_comment (h : Between setup { jc with comment := false, state := jc.before_comment_state } c)
    (hcomment : jc.comment = true) (hstate : jc.state = .C1 ∨ jc.state = .C2 ∨ jc.state = .C3) (b : UInt8) :
    Keeps lib setup (JSON_parser_char lib jc b) := by
  cases hclass : char_class b with
  | none => exact (char_none hclass).keeps
  | some cls =>
    have hadd : jc.add_char_to_parse_buffer b cls = .ok (jc.parse_buffer_reserve_for 1) := by
      have hescaped : (jc.parse_buffer_reserve_for 1).escaped = false := h.escaped
      have hreserved : (jc.parse_buffer_reserve_for 1).comment = true := hcomment
      simp [Parser.add_char_to_parse_buffer, hescaped, hreserved]
      rfl
    have hgrown : Between setup { jc.parse_buffer_reserve_for 1 with comment := false, state := jc.before_comment_state } c := by
      have hroom := room_reserved h.room
      refine ⟨⟨h.wf, h.builds, h.modes, h.fixed⟩, ⟨h.escaped, rfl, ?_⟩, h.surrogate, h.type, h.buffer, h.state⟩
      exact Nat.lt_of_succ_lt (Nat.lt_of_succ_le hroom)
    have hcell : cell jc.state cls = .error ∨ cell jc.state cls = .to .C2 ∨ cell jc.state cls = .to .C3 ∨
        cell jc.state cls = .act .CE := by
      rcases hstate with hst | hst | hst <;> rw [hst] <;> cases cls <;> decide
    rw [char_of_add hclass hadd]
    rcases hcell with hcell | hcell | hcell | hcell <;> rw [show cell (jc.parse_buffer_reserve_for 1).state cls = _ from hcell]
    · trivial
    · exact .comment (c := c) hgrown hcomment (.inr (.inl rfl))
    · exact .comment (c := c) hgrown hcomment (.inr (.inr rfl))
    · have hbuffer : assert ((jc.parse_buffer_reserve_for 1).parse_buffer = []) = .ok () := assert_true (decide_eq_true h.buffer)
      have htype : assert ((jc.parse_buffer_reserve_for 1).type = .NONE) = .ok () := assert_true (decide_eq_true h.type)
      simp only [Parser.perform, hbuffer, htype, ok_bind]
      exact .between hgrown

/-- After a value, whether it has been handed over or not. -/
theorem Settles.keeps (h : Settles lib setup jc c) (hphase : c.phase = .after) (hinner : jc.type = .NONE ∨ c.frames ≠ [])
    (hends : ends jc.state b = true) (hstate : jc.state = .OK ∨ number_end jc.state = true ∧ c.frames ≠ []) :
    Keeps lib setup (JSON_parser_char lib jc b) := by
  cases hclass : char_class b with
  | none => exact (char_none hclass).keeps
  | some cls =>
    simp only [ends, hclass, Bool.or_eq_true, Bool.and_eq_true, decide_eq_true_eq] at hends
    have hblank : cls = .SPACE ∨ cls = .WHITE → cell jc.state cls = .to .OK → Keeps lib setup (JSON_parser_char lib jc b) := by
      intro hcls hcell
      obtain ⟨jc', hok, hpending⟩ := h.blank hphase hinner hclass hcls hcell
      rw [hok]
      exact .pending hpending
    have hact : ∀ action next, cell jc.state cls = .act action → cls ≠ .SPACE ∧ cls ≠ .WHITE →
        Outcome setup ((jc.pushed [b]).perform lib action) next → Keeps lib setup (JSON_parser_char lib jc b) := by
      intro action next hcell hcls houtcome
      rw [char_act h.toQuiet hclass (.inr hcls) hcell]
      exact houtcome.keeps
    have hother : cls ≠ .SPACE ∧ cls ≠ .WHITE → cell .OK cls = .error ∨ cell .OK cls = .act .CB →
        Keeps lib setup (JSON_parser_char lib jc b) := by
      intro hcls hcell
      have hthis : cell jc.state cls = .error ∨ cell jc.state cls = .act .CB := by
        rcases hends with heq | ⟨herror, -⟩
        · rwa [heq]
        · exact .inl herror
      rcases hthis with herror | hcb
      · exact (char_error h.toQuiet hclass (.inr hcls) herror).keeps
      · rw [char_act h.toQuiet hclass (.inr hcls) hcb]
        refine h.begin_comment b ?_
        rw [hphase]
        rcases hstate with hok | ⟨hnumber, hframes⟩
        · simp [hok, Phase.state]
        · obtain ⟨frame, frames, hc⟩ := List.exists_cons_of_ne_nil hframes
          have hhead : jc.stack.head? = some .ARRAY ∨ jc.stack.head? = some .OBJECT := by
            rw [h.modes, Config.modes, hc, hphase]
            cases frame
            · exact .inl rfl
            · exact .inr rfl
          have hne : ¬ (jc.state = .VA ∨ jc.state = .AR) := by
            rintro (hst | hst) <;> rw [hst] at hnumber <;> cases hnumber
          rw [if_pos hhead, if_neg hne]
          rfl
    cases cls with
    | SPACE => exact hblank (.inl rfl) (hends.elim id fun hand => by cases hand.2)
    | WHITE => exact hblank (.inr rfl) (hends.elim id fun hand => by cases hand.2)
    | RCURB => exact hact .OE _ (hends.elim id fun hand => by cases hand.2) (by simp) (h.close false (.inl hphase) b)
    | RSQRB => exact hact .AE _ (hends.elim id fun hand => by cases hand.2) (by simp) (h.close true (.inl hphase) b)
    | COMMA => exact hact .CM _ (hends.elim id fun hand => by cases hand.2) (by simp) (h.comma hphase b)
    | _ => exact hother (by simp) (by decide)

/-! Numbers and keywords -/

/-- What a byte does within a number. -/
def number_next (type : JsonType) (state : State) (b : UInt8) : Bool :=
  match char_class b with
  | none => true
  | some cls =>
    match cell state cls with
    | .error => true
    | .to next_state => number_state type next_state || (number_end state && ends state b)
    | .act .DF => type = .INTEGER && b = 0x2E
    | .act .DE => type = .INTEGER
    | .act _ => number_end state && ends state b

theorem number_next_eq (hstate : number_state type jc.state = true) (b : UInt8) : number_next type jc.state b = true := by
  have hall : ∀ type state, number_state type state = true →
      ((List.range 256).all fun n => number_next type state (UInt8.ofNat n)) = true := by
    intro type state h
    cases type <;> cases state <;> first | exact absurd h (by decide) | decide +kernel
  exact forall_byte (hall type jc.state hstate) b

theorem InScalar.step_number (h : InScalar setup jc c type s) (hphase : c.phase = .value ∨ c.phase = .element)
    (hstate : number_state type jc.state = true) (b : UInt8) : Keeps lib setup (JSON_parser_char lib jc b) := by
  have hnext := number_next_eq hstate b
  have htype : type = .INTEGER ∨ type = .FLOAT := by
    cases type <;> first | cases hstate | exact .inl rfl | exact .inr rfl
  have hkept : jc.type ≠ .NONE := h.typed (by rcases htype with rfl | rfl <;> simp)
  have hend : number_end jc.state = true → ends jc.state b = true → Keeps lib setup (JSON_parser_char lib jc b) := by
    intro hnumber hends
    obtain ⟨w, hw⟩ : ∃ w, jc.scalar lib = some w := by
      rcases htype with rfl | rfl
      · exact ⟨_, h.integer_value⟩
      · exact ⟨_, h.float_value⟩
    obtain ⟨hafter, hframes⟩ := frames_add_ne_nil h.wf hphase w
    have hsettles := h.toTracks.settles h.toQuiet h.surrogate hphase hw (by rw [h.type_eq]; rcases htype with rfl | rfl <;> simp)
    exact hsettles.keeps hafter (.inr hframes) hends (.inr ⟨hnumber, hframes⟩)
  cases hclass : char_class b with
  | none => exact (char_none hclass).keeps
  | some cls =>
    simp only [number_next, hclass] at hnext
    split at hnext
    · next hcell => exact (char_error h.toQuiet hclass (.inl hkept) hcell).keeps
    · next next_state hcell =>
      rcases Bool.or_eq_true _ _ |>.mp hnext with hnumber | hboth
      · rw [char_to h.toQuiet hclass (.inl hkept) hcell]
        exact .number (h.pushed b next_state) hphase hnumber
      · exact hend (Bool.and_eq_true _ _ |>.mp hboth).1 (Bool.and_eq_true _ _ |>.mp hboth).2
    · next hcell =>
      simp only [Bool.and_eq_true, decide_eq_true_eq] at hnext
      obtain ⟨rfl, rfl⟩ := hnext
      obtain ⟨jc', hok, hin, hFX⟩ := @InScalar.point _ lib _ _ _ _ h (by simp [goes, hclass, hcell])
      rw [hok]
      exact .number hin hphase (by rw [hFX]; rfl)
    · next hcell =>
      obtain rfl : type = .INTEGER := of_decide_eq_true hnext
      obtain ⟨jc', hok, hin, hE1⟩ := @InScalar.exponent _ lib _ _ _ _ h b (by simp [goes, hclass, hcell])
      rw [hok]
      exact .number hin hphase (by rw [hE1]; rfl)
    · exact hend (Bool.and_eq_true _ _ |>.mp hnext).1 (Bool.and_eq_true _ _ |>.mp hnext).2

/-- What a byte does within a keyword. -/
def keyword_next (type : JsonType) (state : State) (b : UInt8) : Bool :=
  match char_class b with
  | none => true
  | some cls =>
    match cell state cls with
    | .error => true
    | .to next_state => keyword_state type next_state || next_state = .OK
    | .act action => action = .CB && cls = .SLASH

theorem keyword_next_eq (hstate : keyword_state type jc.state = true) (b : UInt8) : keyword_next type jc.state b = true := by
  have hall : ∀ type state, keyword_state type state = true →
      ((List.range 256).all fun n => keyword_next type state (UInt8.ofNat n)) = true := by
    intro type state h
    cases type <;> cases state <;> first | exact absurd h (by decide) | decide +kernel
  exact forall_byte (hall type jc.state hstate) b

/-- A comment in a keyword ends it. -/
theorem InScalar.step_keyword (h : InScalar setup jc c type s) (hphase : c.phase = .value ∨ c.phase = .element)
    (hstate : keyword_state type jc.state = true) (b : UInt8) : Keeps lib setup (JSON_parser_char lib jc b) := by
  have hnext := keyword_next_eq hstate b
  have htype : type = .NULL ∨ type = .TRUE ∨ type = .FALSE := by
    cases type <;> first | cases hstate | exact .inl rfl | exact .inr (.inl rfl) | exact .inr (.inr rfl)
  have hkept : jc.type ≠ .NONE := h.typed (by rcases htype with rfl | rfl | rfl <;> simp)
  have hsettles : ∀ jc' s', InScalar setup jc' c type s' → ∃ w, Settles lib setup jc' (c.add w) := by
    intro jc' s' h'
    have hne : jc'.type ≠ .STRING := by rw [h'.type_eq]; rcases htype with rfl | rfl | rfl <;> simp
    obtain ⟨w, hw⟩ : ∃ w, jc'.scalar lib = some w := by
      rcases htype with rfl | rfl | rfl
      · exact ⟨.null, by simp only [Parser.scalar, h'.type_eq]⟩
      · exact ⟨.bool true, by simp only [Parser.scalar, h'.type_eq]⟩
      · exact ⟨.bool false, by simp only [Parser.scalar, h'.type_eq]⟩
    exact ⟨w, h'.toTracks.settles h'.toQuiet h'.surrogate hphase hw hne⟩
  cases hclass : char_class b with
  | none => exact (char_none hclass).keeps
  | some cls =>
    simp only [keyword_next, hclass] at hnext
    split at hnext
    · next hcell => exact (char_error h.toQuiet hclass (.inl hkept) hcell).keeps
    · next next_state hcell =>
      rw [char_to h.toQuiet hclass (.inl hkept) hcell]
      have hpushed := h.pushed b next_state
      simp only [Bool.or_eq_true, decide_eq_true_eq] at hnext
      rcases hnext with hkeyword | rfl
      · exact .keyword hpushed hphase hkeyword
      · obtain ⟨w, hw⟩ := hsettles _ _ hpushed
        obtain ⟨hafter, hframes⟩ := frames_add_ne_nil h.wf hphase w
        exact .pending ⟨hw, rfl, hafter, .inr hframes⟩
    · next action hcell =>
      simp only [Bool.and_eq_true, decide_eq_true_eq] at hnext
      obtain ⟨rfl, rfl⟩ := hnext
      rw [char_act h.toQuiet hclass (.inl hkept) hcell]
      obtain ⟨w, hw⟩ := hsettles _ _ h
      refine hw.begin_comment b ?_
      obtain ⟨frame, frames, hc, -, -⟩ := h.wf.expecting hphase
      have hhead : jc.stack.head? = some .ARRAY ∨ jc.stack.head? = some .OBJECT := by
        rw [h.modes, hc]
        rcases hphase with hp | hp <;> rw [hp] <;> cases frame <;> first | exact .inl rfl | exact .inr rfl
      have hne : ¬ (jc.state = .VA ∨ jc.state = .AR) := by
        rintro (hst | hst) <;> rw [hst] at hstate <;> rcases htype with rfl | rfl | rfl <;> cases hstate
      rw [if_pos hhead, if_neg hne, add_phase]
      rfl

/-! Strings -/

/-- The last digit of a unit. -/
theorem InString.step_unit {u : HexUnit} (h : InString setup jc c (s ++ backslash :: 0x75 :: u.digits) surrogate)
    (hphase : c.phase = .value ∨ c.phase = .element ∨ c.phase = .member ∨ c.phase = .key) :
    Keeps lib setup (jc.perform lib .UC) := by
  by_cases hsurrogate : surrogate = 0
  · subst hsurrogate
    have hunit := @InString.unit _ lib _ _ _ _ _ h
    split at hunit
    · next hhigh =>
      obtain ⟨jc', hok, hin, hD1⟩ := hunit
      have hne : u.value ≠ 0 := fun hzero => absurd (ge_of_high hhigh) (by simp [hzero])
      rw [hok]
      exact .string hin hphase (hD1 ▸ .D1 hne)
    · split at hunit
      · obtain ⟨jc', hok, hin, hST⟩ := hunit
        rw [hok]
        exact .string hin hphase (hST ▸ .ST)
      · exact hunit.keeps
  · have hpair := @InString.pair _ lib _ _ _ _ _ _ h hsurrogate
    split at hpair
    · obtain ⟨jc', hok, hin, hST⟩ := hpair
      rw [hok]
      exact .string hin hphase (hST ▸ .ST)
    · exact hpair.keeps

/-- A state in which one byte alone leads on. -/
theorem InString.step_only (h : InString setup jc c s surrogate) {x : UInt8} {next_state : State}
    (hphase : c.phase = .value ∨ c.phase = .element ∨ c.phase = .member ∨ c.phase = .key)
    (honly : ∀ b, (match char_class b with
      | none => true
      | some cls => cell jc.state cls = .error || (b = x && cell jc.state cls = .to next_state)) = true)
    (hnext : StringState next_state (s ++ [x]) surrogate) (b : UInt8) : Keeps lib setup (JSON_parser_char lib jc b) := by
  have hb := honly b
  cases hclass : char_class b with
  | none => exact (char_none hclass).keeps
  | some cls =>
    simp only [hclass, Bool.or_eq_true, Bool.and_eq_true, decide_eq_true_eq] at hb
    rcases hb with herror | ⟨rfl, hcell⟩
    · exact (char_error h.toQuiet hclass (h.kept cls) herror).keeps
    · rw [char_to h.toQuiet hclass (h.kept cls) hcell]
      exact .string (h.pushed b next_state) hphase hnext

theorem InString.step_string (h : InString setup jc c s surrogate)
    (hphase : c.phase = .value ∨ c.phase = .element ∨ c.phase = .member ∨ c.phase = .key)
    (hstate : StringState jc.state s surrogate) (b : UInt8) : Keeps lib setup (JSON_parser_char lib jc b) := by
  generalize hst : jc.state = state at hstate
  cases hstate with
  | ST =>
    have hbyte := class_of_plain b
    split at hbyte
    · obtain ⟨cls, hclass, hcell⟩ := hbyte
      rw [char_to h.toQuiet hclass (h.kept cls) (by rw [hst]; exact hcell)]
      exact .string (h.pushed b .ST) hphase .ST
    · rcases hbyte with rfl | rfl | herror
      · obtain ⟨jc', c', hok, hbetween, -⟩ := @InString.closed _ lib _ _ _ _ h hphase
        rw [char_act h.toQuiet char_class_quote (h.kept .QUOTE) (by rw [hst]; rfl), hok]
        exact .between hbetween
      · rw [char_act h.toQuiet char_class_backslash (h.kept .BACKS) (by rw [hst]; rfl)]
        exact .escape h hphase rfl
      · cases hclass : char_class b with
        | none => exact (char_none hclass).keeps
        | some cls => exact (char_error h.toQuiet hclass (h.kept cls) (by rw [hst]; exact herror cls hclass)).keeps
  | D1 hne =>
    refine @InString.step_only _ lib _ _ _ _ _ h backslash .D2 hphase ?_ (.D2 hne) b
    rw [hst]
    exact forall_byte (by decide +kernel)
  | @D2 t _ hne =>
    refine @InString.step_only _ lib _ _ _ _ _ h 0x75 .U1 hphase ?_ ?_ b
    · rw [hst]
      exact forall_byte (by decide +kernel)
    · have hdigits := @StringState.digits t [] surrogate 3 (by omega) rfl (by simp)
      rw [List.append_assoc]
      exact hdigits
  | @digits t ds _ k hk hlength hhex =>
    have hbyte := class_of_hex b
    split at hbyte
    · next hb =>
      obtain ⟨cls, hclass, h1, h2, h3, h4, -⟩ := hbyte
      have hall : ∀ x ∈ ds ++ [b], is_hex x = true := List.forall_mem_append.mpr ⟨hhex, List.forall_mem_singleton.mpr hb⟩
      match k, hk with
      | 0, _ =>
        rw [char_act h.toQuiet hclass (h.kept cls) (by rw [hst]; exact h4)]
        have hin : InString setup (jc.pushed [b]) c (t ++ backslash :: 0x75 :: (ds ++ [b])) surrogate := by
          rw [show t ++ backslash :: 0x75 :: (ds ++ [b]) = t ++ backslash :: 0x75 :: ds ++ [b] by simp]
          exact h.pushed b jc.state
        exact @InString.step_unit D lib setup _ c t surrogate ⟨ds ++ [b], by simpa using hlength, hall⟩ hin hphase
      | k + 1, hk =>
        have hcell : cell jc.state cls = .to (digit_state k) := by
          rw [hst]
          match k, hk with
          | 0, _ => exact h3
          | 1, _ => exact h2
          | 2, _ => exact h1
        rw [char_to h.toQuiet hclass (h.kept cls) hcell]
        refine .string (h.pushed b (digit_state k)) hphase ?_
        have hdigits := @StringState.digits t (ds ++ [b]) surrogate k (by omega)
          (by rw [List.length_append, List.length_singleton]; omega) hall
        simpa using hdigits
    · cases hclass : char_class b with
      | none => exact (char_none hclass).keeps
      | some cls =>
        obtain ⟨h1, h2, h3, h4⟩ := hbyte cls hclass
        have hcell : cell jc.state cls = .error := by
          rw [hst]
          unfold digit_state
          split <;> assumption
        exact (char_error h.toQuiet hclass (h.kept cls) hcell).keeps

/-- The byte after a backslash. -/
theorem InString.step_escape (h : InString setup jc c s 0)
    (hphase : c.phase = .value ∨ c.phase = .element ∨ c.phase = .member ∨ c.phase = .key) (b : UInt8) :
    Keeps lib setup (JSON_parser_char lib jc.escape b) := by
  have hletter := class_of_escape b
  split at hletter
  · next hnone => exact (escape_rejects h hnone).keeps
  · next chars hchars =>
    rcases hletter with ⟨rfl, -, -⟩ | ⟨e, he, rfl, rfl, cls, hclass, hcell⟩
    · obtain ⟨jc', hok, hin, hU1⟩ := @InString.escape_u _ lib _ _ _ _ _ h
      rw [hok]
      exact .string hin hphase (hU1 ▸ @StringState.digits s [] 0 3 (by omega) rfl (by simp))
    · obtain ⟨jc', hok, hin, hST⟩ := @InString.escape _ lib _ _ _ _ h _ hchars _ hclass hcell
      rw [hok]
      exact .string hin hphase (hST ▸ .ST)

/-! Between two tokens -/

/-- What the parser can do with a byte between two tokens. -/
def allowed : Phase → Action → Bool
  | phase, .OA | phase, .AA => phase = .start || phase = .value || phase = .element
  | phase, .EO => phase = .member
  | phase, .AE => phase = .element
  | phase, .CL => phase = .colon
  | phase, .SB => phase = .value || phase = .element || phase = .member || phase = .key
  | phase, .MX | phase, .ZX | phase, .IX | phase, .FA | phase, .NU | phase, .TR => phase = .value || phase = .element
  | _, .CB => true
  | _, _ => false

def between_next (phase : Phase) (cls : Class) : Bool :=
  match cell phase.state cls with
  | .error => cls ≠ .SPACE && cls ≠ .WHITE
  | .to _ => cls = .SPACE || cls = .WHITE
  | .act action => allowed phase action && (cls ≠ .SPACE && cls ≠ .WHITE)

theorem between_next_eq {phase : Phase} (hphase : phase ≠ .after) (cls : Class) : between_next phase cls = true := by
  cases phase <;> first | exact absurd rfl hphase | cases cls <;> rfl

/-- The state to come back to after a comment is the one before it. -/
theorem before_comment (hwf : c.WellFormed setup.limit) (hafter : c.phase ≠ .after) :
    (if c.modes.head? = some .ARRAY ∨ c.modes.head? = some .OBJECT then
      if c.phase.state = .VA ∨ c.phase.state = .AR then c.phase.state else .OK else c.phase.state) = c.phase.state := by
  obtain ⟨phase, frames, root⟩ := c
  have hshape := hwf.shape
  cases phase with
  | after => exact absurd rfl hafter
  | value => split <;> rfl
  | element => split <;> rfl
  | start =>
    obtain rfl : frames = [] := hshape
    rfl
  | member =>
    match frames, hshape with
    | .object [] none :: _, _ => rfl
  | key =>
    match frames, hshape with
    | .object (_ :: _) none :: _, _ => rfl
  | colon =>
    match frames, hshape with
    | .object _ (some _) :: _, _ => rfl

theorem Between.step (h : Between setup jc c) (b : UInt8) : Keeps lib setup (JSON_parser_char lib jc b) := by
  by_cases hafter : c.phase = .after
  · have hpending := @Between.pending _ lib _ _ _ h hafter
    refine hpending.toSettles.keeps hafter (.inl h.type) ?_ (.inl hpending.state)
    rw [hpending.state]
    unfold ends
    split <;> simp
  cases hclass : char_class b with
  | none => exact (char_none hclass).keeps
  | some cls =>
    have hcell := between_next_eq hafter cls
    have hnone : assert ((jc.pushed [b]).type = .NONE) = .ok () := assert_true (decide_eq_true h.type)
    unfold between_next at hcell
    split at hcell
    · next herror =>
      simp only [Bool.and_eq_true, decide_eq_true_eq] at hcell
      exact (char_error h.toQuiet hclass (.inr hcell) (by rw [h.state]; exact herror)).keeps
    · simp only [Bool.or_eq_true, decide_eq_true_eq] at hcell
      obtain ⟨jc', hok, hbetween⟩ := @Between.blank _ lib _ _ _ _ _ h hclass hcell
      rw [hok]
      exact .between hbetween
    · next action hact =>
      simp only [Bool.and_eq_true, decide_eq_true_eq] at hcell
      obtain ⟨hallowed, hkept⟩ := hcell
      rw [char_act h.toQuiet hclass (.inr hkept) (by rw [h.state]; exact hact)]
      have hscalar : ∀ type state, (c.phase = .value ∨ c.phase = .element) →
          (number_state type state = true ∨ keyword_state type state = true) →
          Invariant lib setup { jc.pushed [b] with type, state } := by
        rintro type state hphase (hnumber | hkeyword)
        · exact .number (h.scalar b type state) hphase hnumber
        · exact .keyword (h.scalar b type state) hphase hkeyword
      cases action with
      | OA =>
        simp only [allowed, Bool.or_eq_true, decide_eq_true_eq, or_assoc] at hallowed
        exact (h.open hallowed false b).keeps
      | AA =>
        simp only [allowed, Bool.or_eq_true, decide_eq_true_eq, or_assoc] at hallowed
        exact (h.open hallowed true b).keeps
      | EO => exact (h.close_empty (of_decide_eq_true hallowed) b).keeps
      | AE => exact ((@Between.settles _ lib _ _ _ h).close true (.inr ⟨rfl, of_decide_eq_true hallowed⟩) b).keeps
      | CL => exact (h.colon (of_decide_eq_true hallowed) b).keeps
      | SB =>
        simp only [allowed, Bool.or_eq_true, decide_eq_true_eq, or_assoc] at hallowed
        simp only [Parser.perform, hnone, ok_bind]
        exact .string ⟨⟨h.wf, h.builds, h.modes, h.fixed⟩, ⟨h.escaped, h.comment,
          Nat.lt_of_le_of_lt (Nat.zero_le _) (pushed_quiet h.toQuiet [b] (Nat.le_refl _)).room⟩, rfl, h.surrogate, rfl⟩ hallowed .ST
      | MX | ZX | IX =>
        simp only [allowed, Bool.or_eq_true, decide_eq_true_eq] at hallowed
        exact hscalar .INTEGER _ hallowed (.inl rfl)
      | NU =>
        simp only [allowed, Bool.or_eq_true, decide_eq_true_eq] at hallowed
        simp only [Parser.perform, hnone, ok_bind]
        exact hscalar .NULL .N1 hallowed (.inr rfl)
      | FA =>
        simp only [allowed, Bool.or_eq_true, decide_eq_true_eq] at hallowed
        simp only [Parser.perform, hnone, ok_bind]
        exact hscalar .FALSE .F1 hallowed (.inr rfl)
      | TR =>
        simp only [allowed, Bool.or_eq_true, decide_eq_true_eq] at hallowed
        simp only [Parser.perform, hnone, ok_bind]
        exact hscalar .TRUE .T1 hallowed (.inr rfl)
      | CB =>
        refine (@Between.settles _ lib _ _ _ h).begin_comment b ?_
        rw [h.modes, h.state]
        exact before_comment h.wf hafter
      | _ => cases hallowed

/-! Runs -/

theorem Invariant.step (h : Invariant lib setup jc) (b : UInt8) : Keeps lib setup (JSON_parser_char lib jc b) := by
  cases h with
  | between h => exact h.step b
  | pending h =>
    refine h.toSettles.keeps h.phase h.inner ?_ (.inl h.state)
    rw [h.state]
    unfold ends
    split <;> simp
  | number h hphase hstate => exact h.step_number hphase hstate b
  | keyword h hphase hstate => exact h.step_keyword hphase hstate b
  | string h hphase hstate => exact h.step_string hphase hstate b
  | escape h hphase heq => exact heq ▸ h.step_escape hphase b
  | comment h hcomment hstate => exact Invariant.step_comment h hcomment hstate b

theorem Invariant.run (h : Invariant lib setup jc) (text : Bytes) : Keeps lib setup (text.foldlM (JSON_parser_char lib) jc) := by
  induction text generalizing jc with
  | nil => exact h
  | cons b text ih =>
    have hstep := h.step b
    rw [List.foldlM_cons]
    cases hchar : JSON_parser_char lib jc b with
    | error stop =>
      rw [hchar] at hstep
      exact hstep
    | ok jc' =>
      rw [hchar] at hstep
      exact ih hstep

/-- The end of the text is read or rejected. -/
theorem done_rejects : Rejects (JSON_parser_done jc) ∨ ∃ jc', JSON_parser_done jc = .ok jc' := by
  unfold JSON_parser_done
  split
  · unfold Parser.pop
    split
    · split
      · exact .inr ⟨_, rfl⟩
      · exact .inl ⟨_, _, rfl⟩
    · exact .inl ⟨_, _, rfl⟩
  · exact .inl ⟨_, _, rfl⟩

/-- As many arrays as fit are begun. -/
theorem Between.brackets (h : Between setup jc c) (hphase : c.phase = .start ∨ c.phase = .element) (k : ℕ)
    (hfits : c.frames.length + k ≤ setup.limit) :
    ∃ jc' c', (List.replicate k 0x5B).foldlM (JSON_parser_char lib) jc = .ok jc' ∧ Between setup jc' c' ∧
      (c'.phase = .start ∨ c'.phase = .element) ∧ c'.frames.length = c.frames.length + k := by
  induction k generalizing jc c with
  | zero => exact ⟨jc, c, rfl, h, hphase, rfl⟩
  | succ k ih =>
    have hopen : c.phase = .start ∨ c.phase = .value ∨ c.phase = .element := hphase.imp_right .inr
    have hclass : char_class 0x5B = some .LSQRB := by decide
    have hcell : cell jc.state .LSQRB = .act .AA := by
      rw [h.state]
      rcases hphase with hp | hp <;> rw [hp] <;> rfl
    have houtcome := @Between.open _ lib _ _ _ h hopen true 0x5B
    have hnext : c.step setup.limit .LSQRB = some ⟨.element, .array [] :: c.frames, c.root⟩ := by
      simp only [Config.step, Config.opens, if_pos (show (c.phase = .start ∨ c.phase = .value ∨ c.phase = .element) ∧
        c.frames.length < setup.limit from ⟨hopen, by omega⟩)]
    simp only [if_true] at houtcome
    rw [hnext] at houtcome
    obtain ⟨jc', hok, hbetween⟩ := houtcome
    obtain ⟨jc'', c'', hrun, hbetween', hphase', hlength⟩ := ih hbetween (.inr rfl) (by simp only [List.length_cons]; omega)
    refine ⟨jc'', c'', ?_, hbetween', hphase', by simp only [hlength, List.length_cons]; omega⟩
    rw [List.replicate_succ, List.foldlM_cons, char_act h.toQuiet hclass (.inr (by simp)) hcell, hok, ok_bind, hrun]

end Keeps

section Parse

variable {D : Type} (lib : Doubles D) (decimal_point : UInt8)

/-- No assertion of the parser ever fails, on any text and with or without comments. It writes past the end of its
stack of modes on some text exactly if it is asked for a depth that is not less than the size of that stack. -/
theorem cson_parse_safe (opt : ParseOpt) :
    (∀ src, cson_parse lib decimal_point opt src ≠ .assertion) ∧
      ((∃ src, cson_parse lib decimal_point opt src = .overrun) ↔ JSON_PARSER_STACK_SIZE ≤ opt.maxDepth.toNat) := by
  have hparse : ∀ src, cson_parse lib decimal_point opt src ≠ .assertion ∧
      (cson_parse lib decimal_point opt src = .overrun → JSON_PARSER_STACK_SIZE ≤ opt.maxDepth.toNat) := by
    intro src
    have hrun := (@Invariant.between _ lib _ _ _ (between_new decimal_point opt)).run src
    unfold cson_parse
    cases hfold : src.foldlM (JSON_parser_char lib) (JSON_parser_new decimal_point opt) with
    | error stop =>
      rw [hfold] at hrun
      rw [error_bind]
      cases stop with
      | reject error errNo => simp [stopped]
      | assertion => exact hrun.elim
      | overrun =>
        have hsize : (opt.setup decimal_point).size ≤ (opt.setup decimal_point).capacity := hrun
        refine ⟨by simp [stopped], fun _ => ?_⟩
        simp only [ParseOpt.setup, JSON_PARSER_STACK_SIZE] at hsize ⊢
        split_ifs at hsize <;> omega
    | ok jc =>
      rw [ok_bind]
      rcases @done_rejects D jc with ⟨error, errNo, hdone⟩ | ⟨jc', hdone⟩
      · rw [hdone]
        simp [stopped]
      · rw [hdone]
        cases hroot : jc'.ctx.root <;> simp [hroot]
  refine ⟨fun src => (hparse src).1, ?_, fun hdepth => ?_⟩
  · rintro ⟨src, hover⟩
    exact (hparse src).2 hover
  have hbetween := @between_new D decimal_point opt
  have hnonzero : opt.maxDepth ≠ 0 := by
    intro hzero
    rw [hzero] at hdepth
    exact absurd hdepth (by decide)
  have hfull : (opt.setup decimal_point).full = .overrun := by
    refine if_pos ?_
    simp only [ParseOpt.setup, if_neg hnonzero, JSON_PARSER_STACK_SIZE] at hdepth ⊢
    omega
  obtain ⟨jc, c, hrun, h, hphase, hlength⟩ := @Between.brackets _ lib _ _ _ hbetween (.inl rfl) (opt.setup decimal_point).limit (by simp [Config.initial])
  obtain ⟨p, -, hperform⟩ := @Between.begin _ lib _ _ _ h (hphase.imp_right .inr) true 0x5B
  have hlimit : ¬ c.frames.length < (opt.setup decimal_point).limit := by simp [hlength, Config.initial]
  have hcell : cell jc.state .LSQRB = .act .AA := by
    rw [h.state]
    rcases hphase with hp | hp <;> rw [hp] <;> rfl
  have hchar : JSON_parser_char lib jc 0x5B = .error .overrun := by
    rw [char_act h.toQuiet (by decide : char_class 0x5B = some .LSQRB) (.inr (by simp)) hcell, ← hfull]
    simpa only [if_true, if_neg hlimit] using hperform
  refine ⟨List.replicate (opt.setup decimal_point).limit 0x5B ++ [0x5B], ?_⟩
  simp only [cson_parse, List.foldlM_append, hrun, ok_bind, List.foldlM_cons, hchar, error_bind]
  rfl

end Parse

end cson
