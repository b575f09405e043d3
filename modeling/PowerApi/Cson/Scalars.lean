import Mathlib.Tactic.MkIffOfInductiveProp
import PowerApi.Cson.Following

namespace cson

section InScalar

variable {D : Type} {lib : Doubles D} {setup : Setup} {jc : Parser D} {c : Config Bytes D} {type : JsonType}
  {s text : Bytes} {v : Value Bytes D} {n : ℕ}

/-- The parser has read a part of a number or of a keyword. -/
structure InScalar (setup : Setup) (jc : Parser D) (c : Config Bytes D) (type : JsonType) (s : Bytes) : Prop extends
    Tracks setup jc c, Quiet jc where
  surrogate : jc.utf16_high_surrogate = 0
  type_eq : jc.type = type
  buffer : jc.parse_buffer = s

theorem InScalar.pushed (h : InScalar setup jc c type s) (b : UInt8) (state : State) :
    InScalar setup { jc.pushed [b] with state } c type (s ++ [b]) where
  toTracks := ⟨h.wf, h.builds, h.modes, h.fixed⟩
  escaped := h.escaped
  comment := h.comment
  room := (pushed_quiet h.toQuiet [b] (Nat.le_refl _)).room
  surrogate := h.surrogate
  type_eq := h.type_eq
  buffer := congrArg (· ++ [b]) h.buffer

/-- The first byte has been read. -/
theorem Between.scalar (h : Between setup jc c) (b : UInt8) (type : JsonType) (state : State) :
    InScalar setup { jc.pushed [b] with type, state } c type [b] where
  toTracks := ⟨h.wf, h.builds, h.modes, h.fixed⟩
  escaped := h.escaped
  comment := h.comment
  room := (pushed_quiet h.toQuiet [b] (Nat.le_refl _)).room
  surrogate := h.surrogate
  type_eq := rfl
  buffer := congrArg (· ++ [b]) h.buffer

theorem InScalar.retyped (h : InScalar setup jc c type s) (type' : JsonType) (state : State) :
    InScalar setup { jc with type := type', state } c type' s :=
  ⟨⟨h.wf, h.builds, h.modes, h.fixed⟩, ⟨h.escaped, h.comment, h.room⟩,
    h.surrogate, rfl, h.buffer⟩

theorem frames_add_ne_nil (h : c.WellFormed setup.limit) (hphase : c.phase = .value ∨ c.phase = .element) (w : Value Bytes D) :
    (c.add w).phase = .after ∧ (c.add w).frames ≠ [] := by
  obtain ⟨frame, frames, hc, -, -⟩ := h.expecting hphase
  rw [hc]
  exact ⟨rfl, List.cons_ne_nil _ _⟩

theorem step_scalar {w : Value Bytes D} {limit : ℕ} (hphase : c.phase = .value ∨ c.phase = .element) (hw : w.is_scalar = true) :
    c.step limit (.SCALAR w) = some (c.add w) := if_pos ⟨hphase, hw⟩

/-! Keywords -/

/-- From the state the bytes of a word alone lead on, each to its state. -/
def Chained : State → List (UInt8 × State) → Prop
  | _, [] => True
  | state, (b, next_state) :: word =>
    ((state ≠ .OK ∧ state ≠ .GO) ∧ ∀ x, leads state b next_state x = true) ∧ Chained next_state word

def last_state (state : State) (word : List (UInt8 × State)) : State := (word.getLast?.map Prod.snd).getD state

theorem InScalar.accepts_word (hcomments : setup.comments = false) {word : List (UInt8 × State)} {state : State}
    (h : InScalar setup jc c type s) (htype : type ≠ .NONE) (hstate : jc.state = state) (hchained : Chained state word) :
    ∃ jc', InScalar setup jc' c type (s ++ word.map Prod.fst) ∧ jc'.state = last_state state word ∧
      ∀ text, Accepts lib jc text v ↔ ∃ rest, text = word.map Prod.fst ++ rest ∧ Accepts lib jc' rest v := by
  induction word generalizing jc s state with
  | nil => exact ⟨jc, by simpa using h, hstate, by simp⟩
  | cons p word ih =>
    obtain ⟨b, next_state⟩ := p
    obtain ⟨⟨⟨hok, hgo⟩, hleads⟩, hrest⟩ := hchained
    obtain ⟨jc', hin, hlast, haccepts⟩ := ih (h.pushed b next_state) rfl hrest
    have hstep := fun text => @accepts_only D lib jc text v h.toQuiet (h.fixed.comments_eq.trans hcomments)
      (h.type_eq ▸ htype) b next_state (hstate ▸ hleads) (hstate ▸ hok) (hstate ▸ hgo)
    refine ⟨jc', by simpa using hin, ?_, fun text => ?_⟩
    · rw [hlast]
      cases word <;> rfl
    · rw [hstep]
      constructor
      · rintro ⟨rest, rfl, hb⟩
        obtain ⟨rest', rfl, hb'⟩ := (haccepts rest).mp hb
        exact ⟨rest', rfl, hb'⟩
      · rintro ⟨rest, rfl, hb⟩
        exact ⟨_, rfl, (haccepts _).mpr ⟨rest, rfl, hb⟩⟩

/-- A keyword is accepted if it is one, and what follows it is accepted. -/
theorem Between.accepts_keyword (h : Between setup jc c) (hcomments : setup.comments = false) (hlater : ReadsRight lib setup v n)
    (hle : text.length ≤ n) (hphase : c.phase = .value ∨ c.phase = .element) {b : UInt8} {state : State}
    {word : List (UInt8 × State)} {w : Value Bytes D}
    (hchar : JSON_parser_char lib jc b = .ok { jc.pushed [b] with type, state }) (htype : type ≠ .NONE ∧ type ≠ .STRING)
    (hchained : Chained state word) (hlast : last_state state word = .OK)
    (hvalue : ∀ jc : Parser D, jc.type = type → jc.scalar lib = some w) (hw : w.is_scalar = true)
    (hspell : Spell lib setup.point (.SCALAR w) (b :: word.map Prod.fst))
    (honly : ∀ token' rest, Spell lib setup.point token' (b :: rest) → token' = .SCALAR w ∧ rest = word.map Prod.fst) :
    Accepts lib jc (b :: text) v ↔ Lang lib setup.point setup.limit c (b :: text) v := by
  obtain ⟨jc', hin, hstate, haccepts⟩ := @InScalar.accepts_word _ lib _ _ _ _ _ v hcomments _ _ (h.scalar b type state) htype.1 rfl hchained
  have hsettles := hin.toTracks.settles hin.toQuiet hin.surrogate hphase (hvalue jc' hin.type_eq) (hin.type_eq ▸ htype.2)
  obtain ⟨hafter, hframes⟩ := frames_add_ne_nil h.wf hphase w
  rw [accepts_cons hchar, haccepts, lang_word hspell honly, step_scalar hphase hw]
  simp only [Option.some.injEq]
  constructor
  · rintro ⟨rest, rfl, hrest⟩
    rw [List.length_append] at hle
    have hpending : Pending lib setup jc' (c.add w) := ⟨hsettles, hstate.trans hlast, hafter, .inr hframes⟩
    exact ⟨rest, _, rfl, rfl, ((hlater rest (by omega)).2 jc' _ hpending).mp hrest⟩
  · rintro ⟨rest, c', rfl, rfl, hrest⟩
    rw [List.length_append] at hle
    have hpending : Pending lib setup jc' (c.add w) := ⟨hsettles, hstate.trans hlast, hafter, .inr hframes⟩
    exact ⟨rest, rfl, ((hlater rest (by omega)).2 jc' _ hpending).mpr hrest⟩

/-! Numbers -/

/-- What the rest of a text is read with: no comments, texts that are shorter are read right, and a value comes
next. -/
structure Reads (lib : Doubles D) (setup : Setup) (c : Config Bytes D) (v : Value Bytes D) (n : ℕ) : Prop where
  comments : setup.comments = false
  later : ReadsRight lib setup v n
  phase : c.phase = .value ∨ c.phase = .element

section Numbers

variable (lib : Doubles D) (setup : Setup) (c : Config Bytes D) (v : Value Bytes D)

/-- The text goes on after a value. -/
def Follows (w : Value Bytes D) (text : Bytes) : Prop := Lang lib setup.point setup.limit (c.add w) text v

/-- The text goes on with an exponent. -/
def InExponent (s text : Bytes) : Prop :=
  ∃ e rest, text = e ++ rest ∧ Exponent e ∧ Follows lib setup c v (.double (lib.number (s ++ e))) rest

/-- The text goes on after the digits of a fraction. -/
def AfterDigits (s text : Bytes) : Prop := Follows lib setup c v (.double (lib.number s)) text ∨ InExponent lib setup c v s text

/-- The text goes on after the point. -/
def InFraction (s text : Bytes) : Prop :=
  ∃ ds rest, text = ds ++ rest ∧ (∀ b ∈ ds, is_digit b = true) ∧ AfterDigits lib setup c v (s ++ ds) rest

/-- The text goes on after the digits before the point, where there are any. -/
def AfterInt (zero : Bool) (s text : Bytes) : Prop :=
  Follows lib setup c v (.integer (sscanf_lld s)) text ∨
    (∃ rest, text = 0x2E :: rest ∧ InFraction lib setup c v (s ++ [setup.point]) rest) ∨
    (zero = false ∧ InExponent lib setup c v s text)

end Numbers

/-- The first byte of a number is the beginning of its sign and of its digits. -/
theorem lang_number {b : UInt8} {cls : Class} (hphase : c.phase = .value ∨ c.phase = .element)
    (hclass : char_class b = some cls) (hcls : cls = .MINUS ∨ cls = .ZERO ∨ cls = .DIGIT) :
    Lang lib setup.point setup.limit c (b :: text) v ↔ ∃ sign int rest, b :: text = sign ++ (int ++ rest) ∧ Sign sign ∧
      IntPart int ∧ AfterInt lib setup c v (decide (int = [0x30])) (sign ++ int) rest := by
  have hblank : is_blank b = false := by
    rcases hcls with rfl | rfl | rfl <;> simp [is_blank, hclass]
  rw [lang_cons hblank]
  constructor
  · rintro ⟨token, spelling, rest, c', htext, htoken, hstep, hlang⟩
    obtain ⟨b', s, cls', rfl, hclass', hfirst⟩ := htoken.first
    obtain rfl : cls' = cls := by
      obtain ⟨rfl, -⟩ := List.cons.inj htext
      exact Option.some.inj (hclass'.symm.trans hclass)
    generalize b' :: s = spelling at htoken htext
    cases htoken with
    | INTEGER hsign hint =>
      rw [step_scalar hphase rfl] at hstep
      obtain rfl := Option.some.inj hstep
      exact ⟨_, _, rest, by simpa using htext, hsign, hint, .inl hlang⟩
    | DOUBLE hnumber =>
      rw [step_scalar hphase rfl] at hstep
      obtain rfl := Option.some.inj hstep
      cases hnumber with
      | @point sign int ds e hsign hint hds he =>
        refine ⟨sign, int, 0x2E :: (ds ++ (e ++ rest)), by simpa using htext, hsign, hint, .inr (.inl ⟨_, rfl, ds, e ++ rest, rfl, hds, ?_⟩)⟩
        rcases he with rfl | he
        · exact .inl (by simpa [Follows] using hlang)
        · exact .inr ⟨e, rest, rfl, he, by simpa [Follows] using hlang⟩
      | @exponent sign int e hsign hint hne he =>
        exact ⟨sign, int, e ++ rest, by simpa using htext, hsign, hint,
          .inr (.inr ⟨decide_eq_false hne, e, rest, rfl, he, by simpa [Follows] using hlang⟩)⟩
    | _ => rcases hcls with rfl | rfl | rfl <;> cases hfirst
  · rintro ⟨sign, int, rest, htext, hsign, hint, hinteger | ⟨rest', rfl, ds, rest'', rfl, hds, hdone | ⟨e, rest, rfl, he, hdone⟩⟩ |
      ⟨hzero, e, rest', rfl, he, hdone⟩⟩
    · exact ⟨_, sign ++ int, rest, _, by simpa using htext, .INTEGER hsign hint, step_scalar hphase rfl, hinteger⟩
    · exact ⟨_, _, rest'', _, by simpa using htext, .DOUBLE (.point hsign hint hds (.inl rfl)), step_scalar hphase rfl,
        by simpa [Follows] using hdone⟩
    · exact ⟨_, _, rest, _, by simpa using htext, .DOUBLE (.point hsign hint hds (.inr he)), step_scalar hphase rfl,
        by simpa [Follows] using hdone⟩
    · exact ⟨_, _, rest', _, by simpa using htext, .DOUBLE (.exponent hsign hint (of_decide_eq_false hzero) he),
        step_scalar hphase rfl, by simpa [Follows] using hdone⟩

theorem add_phase (w : Value Bytes D) : (c.add w).phase = .after := by
  unfold Config.add
  split <;> rfl

/-- No value is followed by a byte that the table has no entry for. -/
theorem not_follows {w : Value Bytes D} {b : UInt8} (hblank : is_blank b = false)
    (hcell : ∀ cls ∈ char_class b, cell .OK cls = .error ∨ cell .OK cls = .act .CB) : ¬ Follows lib setup c v w (b :: text) := by
  refine not_lang hblank fun cls token hclass hfirst => ?_
  cases hnext : (c.add w).step setup.limit token with
  | none => rfl
  | some c' =>
    have hstep := cell_of_step hnext hfirst
    rw [add_phase] at hstep
    exact ((hcell cls hclass).elim hstep.1 hstep.2).elim

theorem not_follows_nil (hwf : c.WellFormed setup.limit) (hphase : c.phase = .value ∨ c.phase = .element) {w : Value Bytes D} :
    ¬ Follows lib setup c v w [] := by
  rw [Follows, lang_nil]
  exact fun hfinal => (frames_add_ne_nil hwf hphase w).2 hfinal.2.1

/-- The entry that the table has for a byte. -/
def goes (state : State) (b : UInt8) (entry : Cell) : Bool :=
  match char_class b with
  | none => false
  | some cls => cell state cls = entry

/-- The table has no entry for a byte, or one for comments alone. -/
def refuses (state : State) (b : UInt8) : Bool :=
  match char_class b with
  | none => true
  | some cls => cell state cls = .error || cell state cls = .act .CB

theorem goes_iff {state : State} {b : UInt8} {entry : Cell} (h : goes state b entry = true) :
    ∃ cls, char_class b = some cls ∧ cell state cls = entry := by
  unfold goes at h
  split at h
  · cases h
  · next cls hclass => exact ⟨cls, hclass, of_decide_eq_true h⟩

def is_e (b : UInt8) : Bool := b = 0x65 || b = 0x45

/-- What the states within a number make of a byte. -/
@[mk_iff] structure NumberCells (b : UInt8) : Prop where
  blank : (!refuses .OK b || !is_blank b) = true
  refused : (!is_digit b || refuses .OK b) = true
  not_e : (!is_digit b || !is_e b) = true
  E3 : (if is_digit b then goes .E3 b (.to .E3) else ends .E3 b) = true
  E2 : (if is_digit b then goes .E2 b (.to .E3) else refuses .E2 b) = true
  E1 : (if is_digit b then goes .E1 b (.to .E3) && b ≠ 0x2B && b ≠ 0x2D
    else if b = 0x2B || b = 0x2D then goes .E1 b (.to .E2) else refuses .E1 b) = true
  FX : (if is_digit b then goes .FX b (.to .FR) else if is_e b then goes .FX b (.to .E1) else ends .FX b) = true
  FR : (if is_digit b then goes .FR b (.to .FR) else if is_e b then goes .FR b (.to .E1) else ends .FR b) = true
  IT : (if is_digit b then goes .IT b (.to .IT) else if b = 0x2E then goes .IT b (.act .DF) && !is_e b
    else if is_e b then goes .IT b (.act .DE) else ends .IT b) = true
  ZE : (if b = 0x2E then goes .ZE b (.act .DF) else ends .ZE b) = true
  MI : (if is_digit b then (char_class b = some .ZERO && goes .MI b (.to .ZE)) || (char_class b = some .DIGIT && goes .MI b (.to .IT))
    else refuses .MI b) = true

instance (b : UInt8) : Decidable (NumberCells b) := decidable_of_iff _ (numberCells_iff b).symm

theorem number_cells (b : UInt8) : NumberCells b :=
  of_decide_eq_true (@forall_byte (fun b => decide (NumberCells b)) (by decide +kernel) b)

/-- A byte that no value is followed by. -/
theorem not_follows_refused {w : Value Bytes D} {b : UInt8} (hrefuses : refuses .OK b = true) :
    ¬ Follows lib setup c v w (b :: text) := by
  have hblank := (number_cells b).blank
  simp only [hrefuses, Bool.not_true, Bool.false_or, Bool.not_eq_true'] at hblank
  refine not_follows hblank fun cls hcls => ?_
  rw [Option.mem_def] at hcls
  simpa [refuses, hcls] using hrefuses

theorem InScalar.typed (h : InScalar setup jc c type s) (htype : type ≠ .NONE) : jc.type ≠ .NONE := h.type_eq ▸ htype

theorem InScalar.accepts_goes (h : InScalar setup jc c type s) (htype : type ≠ .NONE) {b : UInt8} {next_state : State}
    (hgoes : goes jc.state b (.to next_state) = true) :
    Accepts lib jc (b :: text) v ↔ Accepts lib { jc.pushed [b] with state := next_state } text v := by
  obtain ⟨cls, hclass, hcell⟩ := goes_iff hgoes
  exact accepts_cons (char_to h.toQuiet hclass (.inl (h.typed htype)) hcell)

theorem InScalar.not_accepts (h : InScalar setup jc c type s) (hcomments : setup.comments = false) (htype : type ≠ .NONE)
    {b : UInt8} (hrefuses : refuses jc.state b = true) : ¬ Accepts lib jc (b :: text) v := by
  cases hclass : char_class b with
  | none =>
    obtain ⟨error, errNo, hstop⟩ := @char_none D lib jc b hclass
    exact not_accepts_cons hstop
  | some cls =>
    simp only [refuses, hclass, Bool.or_eq_true, decide_eq_true_eq] at hrefuses
    obtain ⟨error, errNo, hstop⟩ := @char_rejects D lib jc h.toQuiet (h.fixed.comments_eq.trans hcomments) b cls hclass (.inl (h.typed htype)) hrefuses
    exact not_accepts_cons hstop

/-- The end of a number. -/
theorem InScalar.accepts_end (h : InScalar setup jc c type s) (hreads : Reads lib setup c v n) {w : Value Bytes D}
    (hw : jc.scalar lib = some w) (htype : type ≠ .STRING) (hstate : jc.state ≠ .OK ∧ jc.state ≠ .GO)
    (hends : ∀ b ∈ text.head?, ends jc.state b = true) (hle : text.length ≤ n) :
    Accepts lib jc text v ↔ Follows lib setup c v w text := by
  have hsettles := h.toTracks.settles h.toQuiet h.surrogate hreads.phase hw (h.type_eq ▸ htype)
  match text with
  | [] => exact iff_of_false (not_accepts_nil hstate.1 hstate.2) (not_follows_nil h.wf hreads.phase)
  | b :: text =>
    obtain ⟨hafter, hframes⟩ := frames_add_ne_nil h.wf hreads.phase w
    exact hsettles.accepts_after hreads.comments hafter (.inr hframes) (hends b rfl) hreads.later (Nat.le_of_succ_le hle)

/-- A loop over digits, in one state or in two. -/
theorem InScalar.accepts_digits (inside : State → Prop) (after : Bytes → Bytes → Prop) (htype : type ≠ .NONE)
    (hdigit : ∀ state, inside state → ∀ b, is_digit b = true → ∃ next_state, inside next_state ∧ goes state b (.to next_state) = true)
    (hafter : ∀ (jc : Parser D) (s text : Bytes), InScalar setup jc c type s → inside jc.state → text.length ≤ n →
      (∀ b ∈ text.head?, is_digit b = false) → (Accepts lib jc text v ↔ after s text))
    (hnot : ∀ (s : Bytes) (b : UInt8) (text : Bytes), is_digit b = true → ¬ after s (b :: text))
    (h : InScalar setup jc c type s) (hstate : inside jc.state) (hle : text.length ≤ n) :
    Accepts lib jc text v ↔ ∃ ds rest, text = ds ++ rest ∧ (∀ b ∈ ds, is_digit b = true) ∧ after (s ++ ds) rest := by
  have hend : ∀ s text : Bytes, (∀ b ∈ text.head?, is_digit b = false) →
      ((∃ ds rest, text = ds ++ rest ∧ (∀ b ∈ ds, is_digit b = true) ∧ after (s ++ ds) rest) ↔ after s text) := by
    intro s text hhead
    constructor
    · rintro ⟨ds, rest, rfl, hds, hrest⟩
      cases ds with
      | nil => simpa using hrest
      | cons d ds =>
        have hd := hhead d rfl
        rw [hds d List.mem_cons_self] at hd
        cases hd
    · exact fun hrest => ⟨[], text, rfl, by simp, by simpa using hrest⟩
  induction text generalizing jc s with
  | nil => rw [hend s [] (by simp), hafter jc s [] h hstate hle (by simp)]
  | cons b text ih =>
    by_cases hb : is_digit b = true
    · obtain ⟨next_state, hinside, hgoes⟩ := hdigit jc.state hstate b hb
      rw [h.accepts_goes htype hgoes]
      refine (ih (h.pushed b next_state) hinside (Nat.le_of_succ_le hle)).trans ?_
      constructor
      · rintro ⟨ds, rest, rfl, hds, hrest⟩
        exact ⟨b :: ds, rest, rfl, List.forall_mem_cons.mpr ⟨hb, hds⟩, by simpa using hrest⟩
      · rintro ⟨ds, rest, htext, hds, hrest⟩
        cases ds with
        | nil =>
          obtain rfl : b :: text = rest := htext
          exact absurd (by simpa using hrest) (hnot s b text hb)
        | cons d ds =>
          obtain ⟨rfl, rfl⟩ := List.cons.inj htext
          exact ⟨ds, rest, rfl, fun x hx => hds x (List.mem_cons_of_mem _ hx), by simpa using hrest⟩
    · have hhead : ∀ x ∈ (b :: text).head?, is_digit x = false := by simpa using hb
      rw [hend s (b :: text) hhead, hafter jc s (b :: text) h hstate hle hhead]

/-! The states of a number -/

theorem InScalar.float_value (h : InScalar setup jc c .FLOAT s) :
    jc.scalar lib = some (.double (lib.number s)) := by
  simp only [Parser.scalar, h.type_eq, h.buffer, Doubles.number]

theorem InScalar.integer_value (h : InScalar setup jc c .INTEGER s) :
    jc.scalar lib = some (.integer (sscanf_lld s)) := by
  simp only [Parser.scalar, h.type_eq, h.buffer]

/-- The digits of an exponent, from the second one on. -/
def InDigits (lib : Doubles D) (setup : Setup) (c : Config Bytes D) (v : Value Bytes D) (s text : Bytes) : Prop :=
  ∃ ds rest, text = ds ++ rest ∧ (∀ b ∈ ds, is_digit b = true) ∧ Follows lib setup c v (.double (lib.number (s ++ ds))) rest

theorem digit_refused {b : UInt8} (hb : is_digit b = true) : refuses .OK b = true := by
  have h := (number_cells b).refused
  simpa [hb] using h

theorem InScalar.accepts_E3 (h : InScalar setup jc c .FLOAT s) (hreads : Reads lib setup c v n) (hstate : jc.state = .E3)
    (hle : text.length ≤ n) : Accepts lib jc text v ↔ InDigits lib setup c v s text := by
  refine InScalar.accepts_digits (· = .E3) (fun s => Follows lib setup c v (.double (lib.number s))) (by simp)
    (fun state hE3 b hb => ⟨.E3, rfl, ?_⟩) (fun jc s text h hstate hle hhead => ?_)
    (fun s b text hb => not_follows_refused (digit_refused hb)) h hstate hle
  · have h := (number_cells b).E3
    simpa [hb, hE3] using h
  · refine h.accepts_end hreads h.float_value (by simp) (by simp [hstate]) (fun b hb => ?_) hle
    have hends := (number_cells b).E3
    rw [hhead b hb, if_neg (by decide)] at hends
    rwa [hstate]

/-- The digits of an exponent. -/
theorem InScalar.accepts_E2 (h : InScalar setup jc c .FLOAT s) (hreads : Reads lib setup c v n) (hstate : jc.state = .E2)
    (hle : text.length ≤ n) :
    Accepts lib jc text v ↔ ∃ b rest, text = b :: rest ∧ is_digit b = true ∧ InDigits lib setup c v (s ++ [b]) rest := by
  match text with
  | [] => exact iff_of_false (not_accepts_nil (by simp [hstate]) (by simp [hstate])) (by simp)
  | b :: text =>
    have hb := (number_cells b).E2
    rw [← hstate] at hb
    split at hb
    · next hdigit =>
      rw [h.accepts_goes (by simp) hb, (h.pushed b .E3).accepts_E3 hreads rfl (Nat.le_of_succ_le hle)]
      constructor
      · exact fun hrest => ⟨b, text, rfl, hdigit, hrest⟩
      · rintro ⟨b', rest, heq, -, hrest⟩
        obtain ⟨rfl, rfl⟩ := List.cons.inj heq
        exact hrest
    · next hdigit =>
      refine iff_of_false (h.not_accepts hreads.comments (by simp) hb) ?_
      rintro ⟨b', rest, heq, hdigit', -⟩
      obtain ⟨rfl, rfl⟩ := List.cons.inj heq
      exact hdigit hdigit'

/-- The sign and the digits of an exponent. -/
theorem InScalar.accepts_E1 (h : InScalar setup jc c .FLOAT s) (hreads : Reads lib setup c v n) (hstate : jc.state = .E1)
    (hle : text.length ≤ n) :
    Accepts lib jc text v ↔ ∃ sign ds rest, text = sign ++ (ds ++ rest) ∧ (sign = [] ∨ sign = [0x2B] ∨ sign = [0x2D]) ∧ ds ≠ [] ∧
      (∀ b ∈ ds, is_digit b = true) ∧ Follows lib setup c v (.double (lib.number (s ++ (sign ++ ds)))) rest := by
  match text with
  | [] =>
    refine iff_of_false (not_accepts_nil (by simp [hstate]) (by simp [hstate])) ?_
    rintro ⟨sign, ds, rest, htext, -, hne, -⟩
    simp_all
  | b :: text =>
    have hb := (number_cells b).E1
    rw [← hstate] at hb
    split at hb
    · next hdigit =>
      simp only [Bool.and_eq_true, decide_eq_true_eq] at hb
      obtain ⟨⟨hgoes, hplus⟩, hminus⟩ := hb
      rw [h.accepts_goes (by simp) hgoes, (h.pushed b .E3).accepts_E3 hreads rfl (Nat.le_of_succ_le hle)]
      constructor
      · rintro ⟨ds, rest, rfl, hds, hrest⟩
        exact ⟨[], b :: ds, rest, rfl, .inl rfl, by simp, List.forall_mem_cons.mpr ⟨hdigit, hds⟩, by simpa using hrest⟩
      · rintro ⟨sign, ds, rest, htext, hsign, hne, hds, hrest⟩
        rcases hsign with rfl | rfl | rfl
        · cases ds with
          | nil => exact absurd rfl hne
          | cons d ds =>
            obtain ⟨rfl, rfl⟩ := List.cons.inj htext
            exact ⟨ds, rest, rfl, fun x hx => hds x (List.mem_cons_of_mem _ hx), by simpa using hrest⟩
        · exact absurd (List.cons.inj htext).1 hplus
        · exact absurd (List.cons.inj htext).1 hminus
    · next hdigit =>
      split at hb
      · next hsigned =>
        simp only [Bool.or_eq_true, decide_eq_true_eq] at hsigned
        rw [h.accepts_goes (by simp) hb, (h.pushed b .E2).accepts_E2 hreads rfl (Nat.le_of_succ_le hle)]
        constructor
        · rintro ⟨d, _, rfl, hd, ds, rest, rfl, hds, hrest⟩
          refine ⟨[b], d :: ds, rest, rfl, .inr ?_, by simp, List.forall_mem_cons.mpr ⟨hd, hds⟩, by simpa using hrest⟩
          rcases hsigned with rfl | rfl
          · exact .inl rfl
          · exact .inr rfl
        · rintro ⟨sign, ds, rest, htext, hsign, hne, hds, hrest⟩
          obtain ⟨d, ds, rfl⟩ := List.exists_cons_of_ne_nil hne
          rcases hsign with rfl | hsign
          · obtain ⟨rfl, -⟩ := List.cons.inj htext
            exact absurd (hds b List.mem_cons_self) hdigit
          · obtain rfl : sign = [b] := by
              rcases hsign with rfl | rfl <;> rw [(List.cons.inj htext).1]
            obtain rfl := (List.cons.inj htext).2
            exact ⟨d, ds ++ rest, rfl, hds d List.mem_cons_self, ds, rest, rfl, fun x hx => hds x (List.mem_cons_of_mem _ hx),
              by simpa using hrest⟩
      · next hsigned =>
        refine iff_of_false (h.not_accepts hreads.comments (by simp) hb) ?_
        rintro ⟨sign, ds, rest, htext, hsign, hne, hds, -⟩
        obtain ⟨d, ds, rfl⟩ := List.exists_cons_of_ne_nil hne
        simp only [Bool.or_eq_true, decide_eq_true_eq, not_or] at hsigned
        rcases hsign with rfl | rfl | rfl
        · obtain ⟨rfl, -⟩ := List.cons.inj htext
          exact hdigit (hds b List.mem_cons_self)
        · exact hsigned.1 (List.cons.inj htext).1
        · exact hsigned.2 (List.cons.inj htext).1

/-- The letters that an exponent begins with. -/
theorem inExponent_cons {b : UInt8} (hb : is_e b = true) : InExponent lib setup c v s (b :: text) ↔
    ∃ sign ds rest, text = sign ++ (ds ++ rest) ∧ (sign = [] ∨ sign = [0x2B] ∨ sign = [0x2D]) ∧ ds ≠ [] ∧
      (∀ b ∈ ds, is_digit b = true) ∧ Follows lib setup c v (.double (lib.number (s ++ [b] ++ (sign ++ ds)))) rest := by
  constructor
  · rintro ⟨e, rest, htext, he, hrest⟩
    cases he with
    | mk he hsign hne hds =>
      obtain ⟨rfl, rfl⟩ := List.cons.inj htext
      exact ⟨_, _, rest, by simp, hsign, hne, hds, by simpa using hrest⟩
  · rintro ⟨sign, ds, rest, rfl, hsign, hne, hds, hrest⟩
    refine ⟨b :: (sign ++ ds), rest, by simp, .mk ?_ hsign hne hds, by simpa using hrest⟩
    simpa [is_e] using hb

theorem not_inExponent (hhead : ∀ b ∈ text.head?, is_e b = false) : ¬ InExponent lib setup c v s text := by
  rintro ⟨e, rest, rfl, he, -⟩
  cases he with
  | @mk b sign ds he =>
    have hb := hhead b rfl
    simp only [is_e, Bool.or_eq_false_iff, decide_eq_false_iff_not] at hb
    exact he.elim hb.1 hb.2

theorem e_refused {b : UInt8} (hb : is_e b = true) : refuses .OK b = true := by
  simp only [is_e, Bool.or_eq_true, decide_eq_true_eq] at hb
  rcases hb with rfl | rfl <;> decide

theorem digit_not_e {b : UInt8} (hb : is_digit b = true) : is_e b = false := by
  have h := (number_cells b).not_e
  simpa [hb] using h

/-- After the digits of a fraction. -/
theorem InScalar.accepts_after_digits (h : InScalar setup jc c .FLOAT s) (hreads : Reads lib setup c v n)
    (hstate : jc.state = .FX ∨ jc.state = .FR) (hle : text.length ≤ n) (hhead : ∀ b ∈ text.head?, is_digit b = false) :
    Accepts lib jc text v ↔ AfterDigits lib setup c v s text := by
  have hbyte : ∀ b, is_digit b = false → if is_e b then goes jc.state b (.to .E1) = true else ends jc.state b = true := by
    intro b hb
    have hFX := (number_cells b).FX
    have hFR := (number_cells b).FR
    rw [hb, if_neg (by decide)] at hFX hFR
    rcases hstate with hst | hst <;> rw [hst] <;> split <;> simp_all
  have hinner : jc.state ≠ .OK ∧ jc.state ≠ .GO := by rcases hstate with hst | hst <;> simp [hst]
  by_cases he : ∃ b rest, text = b :: rest ∧ is_e b = true
  · obtain ⟨b, rest, rfl, he⟩ := he
    have hgoes := hbyte b (hhead b rfl)
    rw [if_pos he] at hgoes
    rw [h.accepts_goes (by simp) hgoes, (h.pushed b .E1).accepts_E1 hreads rfl (Nat.le_of_succ_le hle), AfterDigits,
      or_iff_right (not_follows_refused (e_refused he)), inExponent_cons he]
  · have hnot : ∀ b ∈ text.head?, is_e b = false := by
      intro b hb
      obtain ⟨rest, rfl⟩ : ∃ rest, text = b :: rest := by cases text <;> simp_all
      exact Bool.of_not_eq_true fun hpos => he ⟨b, rest, rfl, hpos⟩
    rw [AfterDigits, or_iff_left (not_inExponent hnot)]
    refine h.accepts_end hreads h.float_value (by simp) hinner (fun b hb => ?_) hle
    have hends := hbyte b (hhead b hb)
    rwa [if_neg (by simp [hnot b hb])] at hends

/-- The digits of a fraction. -/
theorem InScalar.accepts_fraction (h : InScalar setup jc c .FLOAT s) (hreads : Reads lib setup c v n)
    (hstate : jc.state = .FX ∨ jc.state = .FR) (hle : text.length ≤ n) :
    Accepts lib jc text v ↔ InFraction lib setup c v s text := by
  refine InScalar.accepts_digits (fun state => state = .FX ∨ state = .FR) (AfterDigits lib setup c v) (by simp)
    (fun state hst b hb => ⟨.FR, .inr rfl, ?_⟩) (fun jc s text h hstate hle hhead => h.accepts_after_digits hreads hstate hle hhead)
    (fun s b text hb => not_or.mpr ⟨not_follows_refused (digit_refused hb), not_inExponent (by simpa using digit_not_e hb)⟩)
    h hstate hle
  have hcells := number_cells b
  rcases hst with rfl | rfl
  · simpa [hb] using hcells.FX
  · simpa [hb] using hcells.FR

/-- The point of the locale takes the place of the one that is read. -/
theorem InScalar.point (h : InScalar setup jc c .INTEGER s) (hgoes : goes jc.state 0x2E (.act .DF) = true) :
    ∃ jc', JSON_parser_char lib jc 0x2E = .ok jc' ∧ InScalar setup jc' c .FLOAT (s ++ [setup.point]) ∧ jc'.state = .FX := by
  obtain ⟨cls, hclass, hcell⟩ := goes_iff hgoes
  have hpushed := h.pushed 0x2E jc.state
  have htype : assert ((jc.pushed [0x2E]).type ≠ .FALSE && (jc.pushed [0x2E]).type ≠ .TRUE && (jc.pushed [0x2E]).type ≠ .NULL &&
      (jc.pushed [0x2E]).type ≠ .STRING) = .ok () := assert_true (by simp [h.type_eq])
  have hbuffer : (jc.pushed [0x2E]).parse_buffer = s ++ [0x2E] := hpushed.buffer
  have hpoint : assert (decide ((s ++ [0x2E]).getLast? = some 0x2E)) = .ok () := assert_true (by simp)
  refine ⟨{ jc.pushed [0x2E] with parse_buffer := s ++ [setup.point], type := .FLOAT, state := .FX }, ?_, ⟨⟨h.wf, h.builds, h.modes,
    h.fixed⟩, ⟨h.escaped, h.comment, ?_⟩, h.surrogate, rfl, rfl⟩, rfl⟩
  · rw [char_act h.toQuiet hclass (.inl (h.typed (by simp))) hcell]
    simp only [Parser.perform, Parser.assert_type_isnt_string_null_or_bool, htype, hpoint, ok_bind, hbuffer, List.dropLast_concat]
    rw [show (jc.pushed [0x2E]).decimal_point = setup.point from h.fixed.point_eq]
    rfl
  · have hroom := hpushed.room
    rw [hpushed.buffer] at hroom
    simpa using hroom

theorem InScalar.exponent (h : InScalar setup jc c .INTEGER s) {b : UInt8} (hgoes : goes jc.state b (.act .DE) = true) :
    ∃ jc', JSON_parser_char lib jc b = .ok jc' ∧ InScalar setup jc' c .FLOAT (s ++ [b]) ∧ jc'.state = .E1 := by
  obtain ⟨cls, hclass, hcell⟩ := goes_iff hgoes
  have hpushed := h.pushed b jc.state
  have htype : assert ((jc.pushed [b]).type ≠ .FALSE && (jc.pushed [b]).type ≠ .TRUE && (jc.pushed [b]).type ≠ .NULL &&
      (jc.pushed [b]).type ≠ .STRING) = .ok () := assert_true (by simp [h.type_eq])
  refine ⟨{ jc.pushed [b] with type := .FLOAT, state := .E1 }, ?_, hpushed.retyped .FLOAT .E1, rfl⟩
  rw [char_act h.toQuiet hclass (.inl (h.typed (by simp))) hcell]
  simp only [Parser.perform, Parser.assert_type_isnt_string_null_or_bool, htype, ok_bind]
  rfl

/-- After the digits before the point. -/
theorem InScalar.accepts_after_int (h : InScalar setup jc c .INTEGER s) (hreads : Reads lib setup c v n) (zero : Bool)
    (hstate : jc.state = if zero then .ZE else .IT) (hle : text.length ≤ n)
    (hhead : zero = false → ∀ b ∈ text.head?, is_digit b = false) :
    Accepts lib jc text v ↔ AfterInt lib setup c v zero s text := by
  have hIT := fun b => (number_cells b).IT
  have hZE := fun b => (number_cells b).ZE
  have hpoint : ∀ b, b = 0x2E → goes jc.state b (.act .DF) = true := by
    rintro b rfl
    rw [hstate]
    cases zero <;> decide
  have hinner : jc.state ≠ .OK ∧ jc.state ≠ .GO := by rw [hstate]; cases zero <;> decide
  match text with
  | [] =>
    refine iff_of_false (not_accepts_nil hinner.1 hinner.2) ?_
    rintro (hfollows | ⟨rest, htext, -⟩ | ⟨-, hexponent⟩)
    · exact not_follows_nil h.wf hreads.phase hfollows
    · cases htext
    · exact not_inExponent (by simp) hexponent
  | b :: text =>
    by_cases hb : b = 0x2E
    · subst hb
      obtain ⟨jc', hok, hin, hFX⟩ := @InScalar.point _ lib _ _ _ _ h (hpoint _ rfl)
      rw [accepts_cons hok, hin.accepts_fraction hreads (.inl hFX) (Nat.le_of_succ_le hle), AfterInt,
        or_iff_right (not_follows_refused (by decide)), or_iff_left (fun hand => not_inExponent (by simp [is_e]) hand.2)]
      simp
    · have hnot : ¬ ∃ rest, b :: text = 0x2E :: rest ∧ InFraction lib setup c v (s ++ [setup.point]) rest := by
        rintro ⟨rest, htext, -⟩
        exact hb (List.cons.inj htext).1
      by_cases he : zero = false ∧ is_e b = true
      · obtain ⟨rfl, he⟩ := he
        have hgoes := hIT b
        rw [hhead rfl b rfl, if_neg (by decide), if_neg hb, if_pos he] at hgoes
        obtain ⟨jc', hok, hin, hE1⟩ := @InScalar.exponent _ lib _ _ _ _ h b (by rw [hstate]; exact hgoes)
        rw [accepts_cons hok, hin.accepts_E1 hreads hE1 (Nat.le_of_succ_le hle), AfterInt,
          or_iff_right (not_follows_refused (e_refused he)), or_iff_right hnot, and_iff_right rfl, inExponent_cons he]
      · have hexponent : ¬ (zero = false ∧ InExponent lib setup c v s (b :: text)) := by
          rintro ⟨rfl, hexponent⟩
          exact not_inExponent (by simpa using he) hexponent
        rw [AfterInt, or_iff_left (not_or.mpr ⟨hnot, hexponent⟩)]
        refine h.accepts_end hreads h.integer_value (by simp) hinner (fun x hx => ?_) hle
        obtain rfl : b = x := by simpa using hx
        rw [hstate]
        cases zero with
        | true =>
          have hends := hZE b
          rwa [if_neg hb] at hends
        | false =>
          have hends := hIT b
          rwa [hhead rfl b rfl, if_neg (by decide), if_neg hb, if_neg (by simpa using he)] at hends

/-- The digits before the point, where the first is not zero. -/
theorem InScalar.accepts_IT (h : InScalar setup jc c .INTEGER s) (hreads : Reads lib setup c v n) (hstate : jc.state = .IT)
    (hle : text.length ≤ n) :
    Accepts lib jc text v ↔ ∃ ds rest, text = ds ++ rest ∧ (∀ b ∈ ds, is_digit b = true) ∧ AfterInt lib setup c v false (s ++ ds) rest := by
  refine InScalar.accepts_digits (· = .IT) (AfterInt lib setup c v false) (by simp) (fun state hIT b hb => ⟨.IT, rfl, ?_⟩)
    (fun jc s text h hstate hle hhead => h.accepts_after_int hreads false hstate hle fun _ => hhead)
    (fun s b text hb => ?_) h hstate hle
  · have h := (number_cells b).IT
    simpa [hb, hIT] using h
  · rintro (hfollows | ⟨rest, htext, -⟩ | ⟨-, hexponent⟩)
    · exact not_follows_refused (digit_refused hb) hfollows
    · rw [(List.cons.inj htext).1] at hb
      cases hb
    · exact not_inExponent (by simpa using digit_not_e hb) hexponent

/-- The text goes on with the digits before the point. -/
def InInt (lib : Doubles D) (setup : Setup) (c : Config Bytes D) (v : Value Bytes D) (s text : Bytes) : Prop :=
  ∃ int rest, text = int ++ rest ∧ IntPart int ∧ AfterInt lib setup c v (decide (int = [0x30])) (s ++ int) rest

theorem inInt_cons {b : UInt8} : InInt lib setup c v s (b :: text) ↔
    (b = 0x30 ∧ AfterInt lib setup c v true (s ++ [b]) text) ∨
    ((is_digit b = true ∧ b ≠ 0x30) ∧
      ∃ ds rest, text = ds ++ rest ∧ (∀ b ∈ ds, is_digit b = true) ∧ AfterInt lib setup c v false (s ++ [b] ++ ds) rest) := by
  constructor
  · rintro ⟨int, rest, htext, hint, hafter⟩
    cases hint with
    | zero =>
      obtain ⟨rfl, rfl⟩ := List.cons.inj htext
      exact .inl ⟨rfl, by simpa using hafter⟩
    | digits hd hne hds =>
      obtain ⟨rfl, rfl⟩ := List.cons.inj htext
      exact .inr ⟨⟨hd, hne⟩, _, rest, rfl, hds, by simpa [hne] using hafter⟩
  · rintro (⟨rfl, hafter⟩ | ⟨⟨hd, hne⟩, ds, rest, rfl, hds, hafter⟩)
    · exact ⟨[0x30], text, rfl, .zero, by simpa using hafter⟩
    · exact ⟨b :: ds, rest, rfl, .digits hd hne hds, by simpa [hne] using hafter⟩

theorem not_inInt_nil : ¬ InInt lib setup c v s [] := by
  rintro ⟨int, rest, htext, hint, -⟩
  obtain ⟨d, ds, rfl, -⟩ := hint.exists_cons
  cases htext

/-- A number has been begun with a digit. -/
theorem InScalar.accepts_digit {b : UInt8} {cls : Class} (h : InScalar setup jc c .INTEGER (s ++ [b])) (hreads : Reads lib setup c v n)
    (hclass : char_class b = some cls) (hstate : cls = .ZERO ∧ jc.state = .ZE ∨ cls = .DIGIT ∧ jc.state = .IT)
    (hle : text.length ≤ n) : Accepts lib jc text v ↔ InInt lib setup c v s (b :: text) := by
  rw [inInt_cons]
  have hdigit := class_of_digit b
  rcases hstate with ⟨rfl, hZE⟩ | ⟨rfl, hIT⟩
  · obtain rfl : b = 0x30 := by simpa [hclass] using byte_of_class b
    rw [h.accepts_after_int hreads true hZE hle (by simp)]
    simp
  · have hd : is_digit b = true ∧ b ≠ 0x30 := by
      have hne : b ≠ 0x30 := by
        rintro rfl
        exact absurd hclass (by decide)
      exact ⟨hdigit.mpr (.inr ⟨hne, hclass⟩), hne⟩
    rw [h.accepts_IT hreads hIT hle, or_iff_right (fun hand => hd.2 hand.1), and_iff_right hd]

/-- The digits after the sign. -/
theorem InScalar.accepts_MI (h : InScalar setup jc c .INTEGER s) (hreads : Reads lib setup c v n) (hstate : jc.state = .MI)
    (hle : text.length ≤ n) : Accepts lib jc text v ↔ InInt lib setup c v s text := by
  match text with
  | [] => exact iff_of_false (not_accepts_nil (by simp [hstate]) (by simp [hstate])) not_inInt_nil
  | b :: text =>
    have hb := (number_cells b).MI
    rw [← hstate] at hb
    split at hb
    · simp only [Bool.or_eq_true, Bool.and_eq_true, decide_eq_true_eq] at hb
      rcases hb with ⟨hclass, hgoes⟩ | ⟨hclass, hgoes⟩
      · rw [h.accepts_goes (by simp) hgoes]
        exact (h.pushed b .ZE).accepts_digit hreads hclass (.inl ⟨rfl, rfl⟩) (Nat.le_of_succ_le hle)
      · rw [h.accepts_goes (by simp) hgoes]
        exact (h.pushed b .IT).accepts_digit hreads hclass (.inr ⟨rfl, rfl⟩) (Nat.le_of_succ_le hle)
    · next hdigit =>
      refine iff_of_false (h.not_accepts hreads.comments (by simp) hb) ?_
      rw [inInt_cons]
      rintro (⟨rfl, -⟩ | ⟨⟨hd, -⟩, -⟩)
      · exact hdigit (by decide)
      · exact hdigit hd

/-- A number is accepted if it is one, and what follows it is accepted. -/
theorem Between.accepts_number (h : Between setup jc c) (hreads : Reads lib setup c v n) {b : UInt8} {cls : Class}
    (hclass : char_class b = some cls) (hcls : cls = .MINUS ∨ cls = .ZERO ∨ cls = .DIGIT) (hle : text.length ≤ n) :
    Accepts lib jc (b :: text) v ↔ Lang lib setup.point setup.limit c (b :: text) v := by
  have hcell : ∀ action, (cell .VA cls = .act action ∧ cell .AR cls = .act action) → cell jc.state cls = .act action := by
    rintro action ⟨hVA, hAR⟩
    rw [h.state]
    rcases hreads.phase with hphase | hphase <;> rw [hphase] <;> assumption
  have hkept : cls ≠ .SPACE ∧ cls ≠ .WHITE := by rcases hcls with rfl | rfl | rfl <;> simp
  have hunsigned : cls ≠ .MINUS → (Lang lib setup.point setup.limit c (b :: text) v ↔ InInt lib setup c v [] (b :: text)) := by
    intro hne
    rw [lang_number hreads.phase hclass hcls]
    constructor
    · rintro ⟨sign, int, rest, htext, rfl | rfl, hint, hafter⟩
      · exact ⟨int, rest, htext, hint, hafter⟩
      · obtain ⟨rfl, -⟩ := List.cons.inj htext
        exact absurd (Option.some.inj (hclass.symm.trans (by decide : _ = some Class.MINUS))) hne
    · rintro ⟨int, rest, htext, hint, hafter⟩
      exact ⟨[], int, rest, htext, .inl rfl, hint, hafter⟩
  rcases hcls with rfl | rfl | rfl
  · have hchar : JSON_parser_char lib jc b = .ok { jc.pushed [b] with type := .INTEGER, state := .MI } :=
      (char_act h.toQuiet hclass (.inr hkept) (hcell .MX (by decide))).trans rfl
    obtain rfl : b = 0x2D := by simpa [hclass] using byte_of_class b
    rw [accepts_cons hchar, (h.scalar 0x2D .INTEGER .MI).accepts_MI hreads rfl hle, lang_number hreads.phase hclass (.inl rfl)]
    constructor
    · rintro ⟨int, rest, rfl, hint, hafter⟩
      exact ⟨[0x2D], int, rest, rfl, .inr rfl, hint, hafter⟩
    · rintro ⟨sign, int, rest, htext, rfl | rfl, hint, hafter⟩
      · obtain ⟨d, ds, rfl, hd⟩ := hint.exists_cons
        rw [← (List.cons.inj htext).1] at hd
        cases hd
      · exact ⟨int, rest, (List.cons.inj htext).2, hint, hafter⟩
  · have hchar : JSON_parser_char lib jc b = .ok { jc.pushed [b] with type := .INTEGER, state := .ZE } :=
      (char_act h.toQuiet hclass (.inr hkept) (hcell .ZX (by decide))).trans rfl
    rw [accepts_cons hchar, hunsigned (by simp)]
    exact @InScalar.accepts_digit D lib setup _ c [] text v n b .ZERO (h.scalar b .INTEGER .ZE) hreads hclass (.inl ⟨rfl, rfl⟩) hle
  · have hchar : JSON_parser_char lib jc b = .ok { jc.pushed [b] with type := .INTEGER, state := .IT } :=
      (char_act h.toQuiet hclass (.inr hkept) (hcell .IX (by decide))).trans rfl
    rw [accepts_cons hchar, hunsigned (by simp)]
    exact @InScalar.accepts_digit D lib setup _ c [] text v n b .DIGIT (h.scalar b .INTEGER .IT) hreads hclass (.inr ⟨rfl, rfl⟩) hle

end InScalar

end cson
