import PowerApi.Cson.Builds

namespace cson

variable {D : Type}

def Frame.mode : Frame Bytes D → Mode
  | .array _ => .ARRAY
  | .object _ _ => .OBJECT

/-- The mode of the innermost container, which for an object changes at a comma and at a colon. -/
def inner_mode (phase : Phase) (frame : Frame Bytes D) : Mode :=
  match phase with
  | .member | .key | .colon => .KEY
  | _ => frame.mode

/-- The stack of modes for the open containers. -/
def Config.modes (c : Config Bytes D) : List Mode :=
  match c.frames with
  | [] => [.DONE]
  | frame :: frames => inner_mode c.phase frame :: (frames.map Frame.mode ++ [.DONE])

/-- The state of the parser between two tokens. -/
def Phase.state : Phase → State
  | .start => .GO
  | .element => .AR
  | .value => .VA
  | .member => .OB
  | .key => .KE
  | .colon => .CO
  | .after => .OK

/-- What a parser is set up with: the capacity of its stack of modes and the size of the memory behind it, the decimal
point of the locale, and whether there can be comments. -/
structure Setup where
  capacity : ℕ
  size : ℕ
  size_pos : 0 < size
  point : UInt8
  comments : Bool

/-- How deep containers can be nested. -/
def Setup.limit (setup : Setup) : ℕ := min setup.capacity (setup.size - 1)

/-- What the parser was set up with has not changed. -/
def Setup.Holds (setup : Setup) (jc : Parser D) : Prop :=
  jc.depth = jc.stack_capacity ∧ jc.stack_capacity = setup.capacity ∧ jc.stack_size = setup.size ∧
    jc.decimal_point = setup.point ∧ jc.allow_comments = setup.comments

section Fixed

variable {setup : Setup} {jc : Parser D}

theorem Setup.Holds.point_eq (h : setup.Holds jc) : jc.decimal_point = setup.point := h.2.2.2.1

theorem Setup.Holds.comments_eq (h : setup.Holds jc) : jc.allow_comments = setup.comments := h.2.2.2.2

end Fixed

/-- The containers that the parser has open, in its two stacks. -/
structure Tracks (setup : Setup) (jc : Parser D) (c : Config Bytes D) : Prop where
  wf : c.WellFormed setup.limit
  builds : Builds jc.ctx c
  modes : jc.stack = c.modes
  fixed : setup.Holds jc

/-- No escape and no comment is under way, and there is room for the zero byte after the text. -/
structure Quiet (jc : Parser D) : Prop where
  escaped : jc.escaped = false
  comment : jc.comment = false
  room : jc.parse_buffer.length < jc.parse_buffer_capacity

/-- The parser stands between two tokens. -/
structure Between (setup : Setup) (jc : Parser D) (c : Config Bytes D) : Prop extends Tracks setup jc c, Quiet jc where
  surrogate : jc.utf16_high_surrogate = 0
  type : jc.type = .NONE
  buffer : jc.parse_buffer = []
  state : jc.state = c.phase.state

/-- How the parser stops at a container that is nested too deep. -/
def Setup.full (setup : Setup) : Stop :=
  if setup.size ≤ setup.capacity then .overrun else .reject .NESTING_DEPTH_REACHED .OK

/-- The parser has stopped in a way that is none of its own faults: it rejects the text, or the text is
nested deeper than its memory allows. -/
def Stop.Harmless (setup : Setup) : Stop → Prop
  | .reject _ _ => True
  | .assertion => False
  | .overrun => setup.size ≤ setup.capacity

theorem Setup.full_harmless (setup : Setup) : setup.full.Harmless setup := by
  unfold Setup.full
  split
  · assumption
  · trivial

/-- What a step of the parser comes to, where the tokens lead to `next`. -/
def Outcome (setup : Setup) (result : Except Stop (Parser D)) : Option (Config Bytes D) → Prop
  | some c => ∃ jc', result = .ok jc' ∧ Between setup jc' c
  | none => ∃ stop, result = .error stop ∧ stop.Harmless setup

section Buffer

variable {jc : Parser D} {b : UInt8} {cls : Class}

theorem le_grown {needed fuel capacity : ℕ} (hpos : 0 < capacity) (hle : needed ≤ capacity + fuel) :
    needed ≤ Parser.grown needed fuel capacity := by
  induction fuel generalizing capacity with
  | zero => simpa [Parser.grown] using hle
  | succ fuel ih =>
    simp only [Parser.grown]
    split
    · exact ih (by omega) (by omega)
    · omega

/-- The parser after a byte has been appended to its buffer, or not. -/
def Parser.pushed (jc : Parser D) (s : Bytes) : Parser D :=
  { jc.parse_buffer_reserve_for 1 with parse_buffer := jc.parse_buffer ++ s }

@[simp] theorem type_pushed (jc : Parser D) (s : Bytes) : (jc.pushed s).type = jc.type := rfl

theorem room_reserved (hroom : jc.parse_buffer.length < jc.parse_buffer_capacity) :
    jc.parse_buffer.length + 1 + 1 ≤ (jc.parse_buffer_reserve_for 1).parse_buffer_capacity :=
  le_grown (by omega) (by omega)

theorem add_char_eq (hquiet : Quiet jc) (hkept : jc.type ≠ .NONE ∨ (cls ≠ .SPACE ∧ cls ≠ .WHITE)) :
    jc.add_char_to_parse_buffer b cls = .ok (jc.pushed [b]) := by
  have hreserved := room_reserved hquiet.room
  have hescaped : (jc.parse_buffer_reserve_for 1).escaped = false := hquiet.escaped
  have hcomment : (jc.parse_buffer_reserve_for 1).comment = false := hquiet.comment
  have htype : (jc.parse_buffer_reserve_for 1).type = jc.type := rfl
  have hbuffer : (jc.parse_buffer_reserve_for 1).parse_buffer = jc.parse_buffer := rfl
  have hpush : (jc.parse_buffer_reserve_for 1).parse_buffer_push_back_char b = .ok (jc.pushed [b]) := by
    simp only [Parser.parse_buffer_push_back_char, hbuffer, assert, decide_eq_true hreserved, if_true]
    rfl
  rcases hkept with hne | ⟨hspace, hwhite⟩
  · simp [Parser.add_char_to_parse_buffer, hescaped, hcomment, htype, hne, hpush]
  · simp [Parser.add_char_to_parse_buffer, hescaped, hcomment, htype, hspace, hwhite, hpush]

theorem add_blank_eq (hquiet : Quiet jc) (htype : jc.type = .NONE) (hblank : cls = .SPACE ∨ cls = .WHITE) :
    jc.add_char_to_parse_buffer b cls = .ok (jc.pushed []) := by
  have hescaped : (jc.parse_buffer_reserve_for 1).escaped = false := hquiet.escaped
  have hcomment : (jc.parse_buffer_reserve_for 1).comment = false := hquiet.comment
  have hnone : (jc.parse_buffer_reserve_for 1).type = .NONE := htype
  have hsame : jc.pushed [] = jc.parse_buffer_reserve_for 1 := by
    simp [Parser.pushed, Parser.parse_buffer_reserve_for]
  rcases hblank with rfl | rfl <;> simp [Parser.add_char_to_parse_buffer, hescaped, hcomment, hnone, hsame] <;> rfl

theorem pushed_quiet (hquiet : Quiet jc) (s : Bytes) (hs : s.length ≤ 1) : Quiet (jc.pushed s) where
  escaped := hquiet.escaped
  comment := hquiet.comment
  room := by
    have := room_reserved hquiet.room
    simp only [Parser.pushed, List.length_append]
    omega

theorem Tracks.pushed {setup : Setup} {c : Config Bytes D} (h : Tracks setup jc c) (s : Bytes) : Tracks setup (jc.pushed s) c :=
  ⟨h.wf, h.builds, h.modes, h.fixed⟩

/-- The last byte is taken off the buffer again. -/
theorem pop_back_pushed (jc : Parser D) (b : UInt8) :
    (jc.pushed [b]).parse_buffer_pop_back_char = .ok (jc.pushed []) := by
  simp [Parser.parse_buffer_pop_back_char, Parser.pushed, assert, bind, Except.bind, pure, Except.pure]

end Buffer

/-! The actions between two tokens -/

section Actions

variable {lib : Doubles D} {limit : ℕ} {setup : Setup} {jc : Parser D} {c : Config Bytes D}

theorem ok_bind {α β : Type} (a : α) (f : α → Except Stop β) : (Except.ok a >>= f) = f a := rfl

theorem error_bind {α β : Type} (stop : Stop) (f : α → Except Stop β) : ((Except.error stop : Except Stop α) >>= f) = .error stop :=
  rfl

theorem assert_true {condition : Bool} (h : condition = true) : assert condition = .ok () := if_pos h

theorem Config.length_modes (c : Config Bytes D) : c.modes.length = c.frames.length + 1 := by
  unfold Config.modes
  split <;> simp [*]

theorem Config.WellFormed.length_le (h : c.WellFormed limit) : c.frames.length ≤ limit := by
  have hfits := h.fits
  cases hframes : c.frames with
  | nil => exact Nat.zero_le _
  | cons frame frames =>
    rw [hframes] at hfits
    have hpos : 1 ≤ frame.close.nesting := by cases frame <;> simp [Frame.close, Value.nesting]
    have := hfits.1
    simp only [List.length_cons]
    omega

/-- A mode is pushed as long as the limit is not reached. -/
theorem push_spec {n : ℕ} (hlength : jc.stack.length = n + 1) (hfixed : setup.Holds jc) (hle : n ≤ setup.limit) (mode : Mode) :
    jc.push mode = if n < setup.limit then .ok { jc with stack := mode :: jc.stack } else .error setup.full := by
  obtain ⟨hdepth, hcapacity, hsize, -, -⟩ := hfixed
  have htop : jc.top = n := by simp [Parser.top, hlength]
  have hpos := setup.size_pos
  have hlimit : setup.limit = min setup.capacity (setup.size - 1) := rfl
  have hassert : assert (jc.top ≤ jc.stack_capacity) = .ok () := assert_true (by rw [htop]; simp; omega)
  have hnonneg : ¬ jc.depth < 0 := by omega
  rw [Parser.push, hassert, ok_bind, if_neg hnonneg]
  by_cases hn : n < setup.limit
  · have hbelow : ¬ jc.top = jc.depth := by omega
    rw [if_pos hn, if_neg hbelow, Parser.write_mode, if_pos (by omega)]
  · rw [if_neg hn]
    by_cases hover : setup.size ≤ setup.capacity
    · have hbelow : ¬ jc.top = jc.depth := by omega
      rw [if_neg hbelow, Parser.write_mode, if_neg (by omega), Setup.full, if_pos hover]
    · have hreached : jc.top = jc.depth := by omega
      rw [if_pos hreached, Setup.full, if_neg hover]

/-- With an empty buffer the parser is between two tokens again. -/
theorem Quiet.between {jc' : Parser D} {c' : Config Bytes D} (hquiet : Quiet jc) (htracks : Tracks setup jc' c')
    (htype : jc'.type = .NONE) (hstate : jc'.state = c'.phase.state) (hbuffer : jc'.parse_buffer = [])
    (hcapacity : jc'.parse_buffer_capacity = (jc.pushed []).parse_buffer_capacity)
    (hescaped : jc'.escaped = jc.escaped) (hcomment : jc'.comment = jc.comment)
    (hsurrogate : jc'.utf16_high_surrogate = 0) : Between setup jc' c' where
  toTracks := htracks
  type := htype
  buffer := hbuffer
  state := hstate
  escaped := hescaped.trans hquiet.escaped
  comment := hcomment.trans hquiet.comment
  surrogate := hsurrogate
  room := by
    have := (pushed_quiet hquiet [] (Nat.zero_le _)).room
    rw [hbuffer, hcapacity]
    exact Nat.lt_of_le_of_lt (Nat.zero_le _) this

/-- What the callback has built once the scalar in the buffer, if there is one, is handed over. -/
def Parser.settle (lib : Doubles D) (jc : Parser D) : Except Stop (Builder D) :=
  match jc.type with
  | .NONE => .ok jc.ctx
  | .FLOAT => cson_parse_callback lib (.FLOAT (lib.strtod jc.parse_buffer)) jc.ctx
  | .INTEGER => cson_parse_callback lib (.INTEGER (sscanf_lld jc.parse_buffer)) jc.ctx
  | .NULL => cson_parse_callback lib .NULL jc.ctx
  | .TRUE => cson_parse_callback lib .TRUE jc.ctx
  | .FALSE => cson_parse_callback lib .FALSE jc.ctx
  | .STRING => cson_parse_callback lib (.STRING jc.parse_buffer) jc.ctx

theorem parse_parse_buffer_eq {ctx : Builder D} (h : jc.settle lib = .ok ctx) :
    jc.parse_parse_buffer lib = .ok { jc with ctx, parse_buffer := [] } := by
  obtain ⟨ctx₀, state, before, type, escaped, comment, allow, point, surrogate, depth, stack, capacity, size, buffer, room⟩ := jc
  cases type with
  | NONE =>
    obtain rfl := Except.ok.inj h
    rfl
  | _ =>
    simp only [Parser.settle] at h
    simp only [Parser.parse_parse_buffer, Parser.callback, h]
    rfl

/-- The parser where the tokens read so far lead to `c`, once the scalar in the buffer is handed over. -/
structure Settles (lib : Doubles D) (setup : Setup) (jc : Parser D) (c : Config Bytes D) : Prop extends Quiet jc where
  surrogate : jc.utf16_high_surrogate = 0
  wf : c.WellFormed setup.limit
  settled : ∃ ctx, jc.settle lib = .ok ctx ∧ Builds ctx c
  modes : jc.stack = c.modes
  fixed : setup.Holds jc
  not_string : jc.type ≠ .STRING

theorem Between.settles (h : Between setup jc c) : Settles lib setup jc c where
  toQuiet := h.toQuiet
  surrogate := h.surrogate
  wf := h.wf
  settled := ⟨jc.ctx, by simp only [Parser.settle, h.type], h.builds⟩
  modes := h.modes
  fixed := h.fixed
  not_string := by simp [h.type]

/-- After the last byte has been taken off the buffer, the scalar is handed over. -/
theorem Settles.popped (h : Settles lib setup jc c) :
    ∃ ctx, (jc.pushed []).parse_parse_buffer lib = .ok { jc.pushed [] with ctx, parse_buffer := [] } ∧ Builds ctx c := by
  obtain ⟨ctx, hsettle, hbuilds⟩ := h.settled
  have hsame : (jc.pushed []).settle lib = .ok ctx := by
    simpa [Parser.settle, Parser.pushed, Parser.parse_buffer_reserve_for] using hsettle
  exact ⟨ctx, parse_parse_buffer_eq hsame, hbuilds⟩

theorem Frame.mode_add (frame : Frame Bytes D) (v : Value Bytes D) : (frame.add v).mode = frame.mode := by
  match frame with
  | .array _ => rfl
  | .object _ none => rfl
  | .object _ (some _) => rfl

/-- The modes below the innermost container are those after it is closed. -/
theorem modes_close (phase : Phase) (frame : Frame Bytes D) (frames : List (Frame Bytes D)) (v : Value Bytes D)
    (root : Option (Value Bytes D)) :
    Config.modes ⟨phase, frame :: frames, root⟩ = inner_mode phase frame :: (Config.add v ⟨phase, frames, root⟩).modes := by
  cases frames with
  | nil => rfl
  | cons outer frames => simp [Config.modes, Config.add, inner_mode, Frame.mode_add]

theorem Frame.mode_eq_iff (frame : Frame Bytes D) (is_array : Bool) :
    frame.mode = (if is_array then .ARRAY else .OBJECT) ↔ frame.is_array = is_array := by
  cases frame <;> cases is_array <;> simp [Frame.mode, Frame.is_array]

/-- A closing bracket after a value, or after the opening one. -/
theorem Settles.close (h : Settles lib setup jc c) (is_array : Bool)
    (hphase : c.phase = .after ∨ is_array ∧ c.phase = .element) (b : UInt8) :
    Outcome setup ((jc.pushed [b]).perform lib (if is_array then .AE else .OE))
      (c.step setup.limit (if is_array then .RSQRB else .RCURB)) := by
  obtain ⟨ctx, hparse, hbuilds⟩ := h.popped
  have hstep : c.step setup.limit (if is_array then .RSQRB else .RCURB) = c.closes is_array (if is_array then .element else .member) := by
    cases is_array <;> rfl
  have hperform : (jc.pushed [b]).perform lib (if is_array then .AE else .OE) = (do
      let p ← end_container ctx
      let jc ← Parser.pop { jc.pushed [] with ctx := p, parse_buffer := [] } (if is_array then .ARRAY else .OBJECT)
        .UNBALANCED_COLLECTION
      return { jc with type := .NONE, state := .OK }) := by
    cases is_array
    · simp only [Bool.false_eq_true, if_false, Parser.perform, pop_back_pushed, ok_bind, hparse, Parser.callback,
        cson_parse_callback]
      cases end_container ctx <;> rfl
    · simp only [if_true, Parser.perform, pop_back_pushed, ok_bind, hparse, Parser.callback, cson_parse_callback]
      cases end_container ctx <;> rfl
  have hwf := h.wf
  have hmodes := h.modes
  obtain ⟨phase, frames, root⟩ := c
  cases frames with
  | nil =>
    have hstack : ctx.stack = [] := List.length_eq_zero_iff.mp hbuilds.spine.length_eq
    rw [hstep, hperform]
    exact ⟨.reject .NONE .RangeError, by simp only [end_container, hstack]; rfl, trivial⟩
  | cons frame frames =>
    obtain rfl : root = none := hwf.root_none_of_frames (by simp)
    have hckey : Config.ckey ⟨phase, frame :: frames, (none : Option (Value Bytes D))⟩ = none := by
      rcases hphase with rfl | ⟨-, rfl⟩ <;> simp [Config.ckey]
    obtain ⟨p, hend, hclosed⟩ := hbuilds.end_container hwf.ready hckey
    have hinner : inner_mode phase frame = frame.mode := by rcases hphase with rfl | ⟨-, rfl⟩ <;> rfl
    have hstack : (jc.pushed []).stack = frame.mode :: (Config.add frame.close ⟨phase, frames, none⟩).modes := by
      rw [← hinner, ← modes_close]
      exact hmodes
    rw [hperform, hend, ok_bind]
    by_cases hkind : frame.is_array = is_array
    · have hnext : Config.closes is_array (if is_array then .element else .member) ⟨phase, frame :: frames, none⟩ =
          some (Config.add frame.close ⟨phase, frames, none⟩) := by
        simp only [Config.closes]
        rw [if_pos]
        refine ⟨hkind, ?_⟩
        rcases hphase with hafter | ⟨rfl, helement⟩
        · exact .inl hafter
        · exact .inr helement
      rw [hstep, hnext]
      have hmode := (frame.mode_eq_iff is_array).mpr hkind
      refine ⟨_, by simp only [Parser.pop, hstack, if_pos hmode]; rfl, ?_⟩
      refine h.toQuiet.between ⟨(hwf.step (hstep.trans hnext)).1, hclosed, rfl, h.fixed⟩ rfl ?_ rfl rfl rfl rfl h.surrogate
      cases frames <;> rfl
    · have hnext : Config.closes is_array (if is_array then .element else .member) ⟨phase, frame :: frames, none⟩ = none := by
        simp only [Config.closes]
        exact if_neg fun hand => hkind hand.1
      rw [hstep, hnext]
      have hmode := fun heq => hkind ((frame.mode_eq_iff is_array).mp heq)
      exact ⟨.reject .UNBALANCED_COLLECTION .OK, by simp only [Parser.pop, hstack, if_neg hmode]; rfl, trivial⟩

/-- The end of an object without members. -/
theorem Between.close_empty (h : Between setup jc c) (hphase : c.phase = .member) (b : UInt8) :
    Outcome setup ((jc.pushed [b]).perform lib .EO) (c.step setup.limit .RCURB) := by
  have hwf := h.wf
  have hmodes := h.modes
  have hbuilds := h.builds
  obtain ⟨phase, frames, root⟩ := c
  obtain rfl : phase = .member := hphase
  match frames, hwf.shape with
  | .object [] none :: frames, _ =>
    obtain rfl : root = none := hwf.root_none_of_frames (by simp)
    obtain ⟨p, hend, hclosed⟩ := hbuilds.end_container hwf.ready rfl
    have hstack : (jc.pushed []).stack = .KEY :: (Config.add (.object []) ⟨.member, frames, none⟩).modes :=
      hmodes.trans (modes_close .member (.object [] none) frames _ none)
    let stack := (Config.add (.object []) ⟨.member, frames, (none : Option (Value Bytes D))⟩).modes
    refine ⟨{ jc.pushed [] with ctx := p, parse_buffer := [], state := .OK, stack }, ?_, ?_⟩
    · have hcallback : (jc.pushed [b]).parse_buffer_clear.callback lib .OBJECT_END =
          .ok { jc.pushed [] with ctx := p, parse_buffer := [] } := by
        show (do
          let p ← end_container jc.ctx
          pure ({ jc.pushed [] with ctx := p, parse_buffer := [] } : Parser D)) = _
        rw [hend]
        rfl
      simp only [Parser.perform, hcallback, ok_bind, Parser.pop, hstack, if_true]
      rfl
    · have hnext : Config.step setup.limit ⟨.member, .object [] none :: frames, none⟩ .RCURB =
        some (Config.add (.object []) ⟨.member, frames, none⟩) := rfl
      refine h.toQuiet.between ⟨(hwf.step hnext).1, hclosed, rfl, h.fixed⟩ h.type ?_ rfl rfl rfl rfl h.surrogate
      cases frames <;> rfl

/-- A comma after a value. -/
theorem Settles.comma (h : Settles lib setup jc c) (hphase : c.phase = .after) (b : UInt8) :
    Outcome setup ((jc.pushed [b]).perform lib .CM) (c.step setup.limit .COMMA) := by
  obtain ⟨ctx, hparse, hbuilds⟩ := h.popped
  have hwf := h.wf
  have hmodes : (jc.pushed []).stack = c.modes := h.modes
  have hnot : assert ((jc.pushed []).type ≠ .STRING) = .ok () := assert_true (decide_eq_true h.not_string)
  obtain ⟨phase, frames, root⟩ := c
  obtain rfl : phase = .after := hphase
  simp only [Parser.perform, pop_back_pushed, ok_bind, hparse, hmodes]
  match frames, hwf.shape with
  | [], _ => exact ⟨.reject .NONE .OK, rfl, trivial⟩
  | .array (v :: list) :: frames, _ =>
    obtain rfl : root = none := hwf.root_none_of_frames (by simp)
    have hcomma : Config.step setup.limit ⟨.after, .array (v :: list) :: frames, none⟩ .COMMA =
      some ⟨.value, .array (v :: list) :: frames, none⟩ := rfl
    refine ⟨{ jc.pushed [] with ctx, parse_buffer := [], type := .NONE, state := .VA }, ?_, ?_⟩
    · simp only [Config.modes, inner_mode, Frame.mode, List.head?_cons, hnot, ok_bind] at hmodes ⊢
      rw [← hmodes]
      rfl
    · exact h.toQuiet.between ⟨(hwf.step hcomma).1, hbuilds.of_key rfl, hmodes, h.fixed⟩ rfl rfl rfl rfl rfl rfl h.surrogate
  | .object (m :: kvp) none :: frames, _ =>
    obtain rfl : root = none := hwf.root_none_of_frames (by simp)
    have hlength := hwf.length_le
    have hpush := @push_spec D setup { jc.pushed [] with ctx, parse_buffer := [], stack := frames.map Frame.mode ++ [.DONE] }
      frames.length (by simp) h.fixed (by simp only [List.length_cons] at hlength; omega) .KEY
    rw [if_pos (by simp only [List.length_cons] at hlength; omega)] at hpush
    have hcomma : Config.step setup.limit ⟨.after, .object (m :: kvp) none :: frames, none⟩ .COMMA =
      some ⟨.key, .object (m :: kvp) none :: frames, none⟩ := rfl
    let stack := Config.modes ⟨.key, .object (m :: kvp) none :: frames, (none : Option (Value Bytes D))⟩
    refine ⟨{ jc.pushed [] with ctx, parse_buffer := [], type := .NONE, state := .KE, stack }, ?_, ?_⟩
    · simp only [Config.modes, inner_mode, Frame.mode, List.head?_cons, Parser.pop, if_true, ok_bind, hpush, hnot]
      rfl
    · exact h.toQuiet.between ⟨(hwf.step hcomma).1, hbuilds.of_key rfl, rfl, h.fixed⟩ rfl rfl rfl rfl rfl rfl h.surrogate

/-- The colon after a key. -/
theorem Between.colon (h : Between setup jc c) (hphase : c.phase = .colon) (b : UInt8) :
    Outcome setup ((jc.pushed [b]).perform lib .CL) (c.step setup.limit .COLON) := by
  have hwf := h.wf
  have hmodes : (jc.pushed []).stack = c.modes := h.modes
  have hbuilds := h.builds
  have hnone : assert ((jc.pushed []).type = .NONE) = .ok () := assert_true (decide_eq_true h.type)
  obtain ⟨phase, frames, root⟩ := c
  obtain rfl : phase = .colon := hphase
  match frames, hwf.shape with
  | .object kvp (some key) :: frames, _ =>
    obtain rfl : root = none := hwf.root_none_of_frames (by simp)
    have hlength := hwf.length_le
    have hpush := @push_spec D setup { jc.pushed [] with stack := frames.map Frame.mode ++ [.DONE] }
      frames.length (by simp) h.fixed (by simp only [List.length_cons] at hlength; omega) .OBJECT
    rw [if_pos (by simp only [List.length_cons] at hlength; omega)] at hpush
    have hcolon : Config.step setup.limit ⟨.colon, .object kvp (some key) :: frames, none⟩ .COLON =
      some ⟨.value, .object kvp (some key) :: frames, none⟩ := rfl
    refine ⟨{ jc.pushed [] with state := .VA, stack := .OBJECT :: (frames.map Frame.mode ++ [.DONE]) }, ?_, ?_⟩
    · simp only [Parser.perform, pop_back_pushed, ok_bind, Config.modes, inner_mode, Parser.pop, hmodes, if_true, hpush, hnone]
      rfl
    · have hbuffer : (jc.pushed []).parse_buffer = [] := by simp [Parser.pushed, h.buffer]
      exact h.toQuiet.between ⟨(hwf.step hcolon).1, hbuilds.of_key rfl, rfl, h.fixed⟩ h.type rfl
        hbuffer rfl rfl rfl h.surrogate

/-- The container that a bracket opens. -/
def opened (is_array : Bool) : Frame Bytes D := if is_array then .array [] else .object [] none

/-- What comes first in it. -/
def inside (is_array : Bool) : Phase := if is_array then .element else .member

theorem opened_holds (is_array : Bool) (h : Heap Bytes D) {r : Ref}
    (hnode : h[r]? = some (if is_array then .ARRAY [] else .OBJECT [])) :
    (opened is_array : Frame Bytes D).Holds h (r + 1) r none := by
  cases is_array
  · exact ⟨[], hnode, trivial⟩
  · exact ⟨[], hnode, trivial⟩

theorem ckey_opened (is_array : Bool) (frames : List (Frame Bytes D)) :
    Config.ckey ⟨inside is_array, opened is_array :: frames, none⟩ = none := by
  cases is_array <;> rfl

/-- The innermost container where a value comes next. -/
theorem Config.WellFormed.expecting (h : c.WellFormed limit) (hphase : c.phase = .value ∨ c.phase = .element) :
    ∃ frame frames, c = ⟨c.phase, frame :: frames, none⟩ ∧ frame.Ready ∧
      (c.phase = .value ∨ c.phase = .element ∧ frame.is_array) := by
  obtain ⟨phase, frames, root⟩ := c
  have hshape := h.shape
  rcases hphase with rfl | rfl
  · match frames, hshape with
    | frame :: frames, hready =>
      obtain rfl : root = none := h.root_none_of_frames (by simp)
      exact ⟨frame, frames, rfl, hready, .inl rfl⟩
  · match frames, hshape with
    | .array [] :: frames, _ =>
      obtain rfl : root = none := h.root_none_of_frames (by simp)
      exact ⟨.array [], frames, rfl, trivial, .inr ⟨rfl, rfl⟩⟩

/-- A container is begun, wherever one can be. -/
theorem Builds.begin_opened {p : Builder D} (h : Builds p c) (hwf : c.WellFormed limit)
    (hphase : c.phase = .start ∨ c.phase = .value ∨ c.phase = .element) (is_array : Bool) :
    ∃ p', begin_container (if is_array then .ARRAY [] else .OBJECT []) p = .ok p' ∧
      Builds p' ⟨inside is_array, opened is_array :: c.frames, none⟩ := by
  rcases hphase with hstart | hexpects
  · have hinitial : c = Config.initial := by
      obtain ⟨phase, frames, root⟩ := c
      obtain rfl : phase = .start := hstart
      obtain rfl : frames = [] := hwf.shape
      rw [show root = none from hwf.root_none (by simp)]
      rfl
    rw [hinitial] at h ⊢
    exact h.begin_root (ckey_opened is_array []) fun h' => opened_holds is_array h'
  · obtain ⟨frame, frames, hc, hready, hkind⟩ := hwf.expecting hexpects
    rw [hc] at h ⊢
    exact h.begin_inner hready hkind (ckey_opened is_array _) fun h' => opened_holds is_array h'

theorem modes_opened (h : c.WellFormed limit) (hphase : c.phase = .start ∨ c.phase = .value ∨ c.phase = .element)
    (is_array : Bool) : Config.modes ⟨inside is_array, opened is_array :: c.frames, none⟩ =
      (if is_array then .ARRAY else .KEY) :: c.modes := by
  obtain ⟨phase, frames, root⟩ := c
  have hinner : ∀ frame, (inner_mode phase frame : Mode) = (frame : Frame Bytes D).mode := by
    rcases hphase with rfl | rfl | rfl <;> exact fun _ => rfl
  cases frames with
  | nil => cases is_array <;> rfl
  | cons frame frames => cases is_array <;> simp only [Config.modes, hinner] <;> rfl

/-- The parser after a bracket, where the callback has begun the container. -/
def Parser.begun (jc : Parser D) (p : Builder D) (is_array : Bool) : Parser D :=
  { jc.pushed [] with
    ctx := p, state := (inside is_array).state, stack := (if is_array then .ARRAY else .KEY) :: jc.stack }

/-- An opening bracket is read as long as there is room for one more container. -/
theorem Between.begin (h : Between setup jc c) (hphase : c.phase = .start ∨ c.phase = .value ∨ c.phase = .element)
    (is_array : Bool) (b : UInt8) :
    ∃ p, Builds p ⟨inside is_array, opened is_array :: c.frames, none⟩ ∧
      (jc.pushed [b]).perform lib (if is_array then .AA else .OA) =
        if c.frames.length < setup.limit then .ok (jc.begun p is_array) else .error setup.full := by
  obtain ⟨p, hbegin, hbuilds⟩ := h.builds.begin_opened h.wf hphase is_array
  have hnone : assert ((jc.pushed []).type = .NONE) = .ok () := assert_true (decide_eq_true h.type)
  have hperform : (jc.pushed [b]).perform lib (if is_array then .AA else .OA) = (do
      let jc ← Parser.push { jc.pushed [] with ctx := p } (if is_array then .ARRAY else .KEY)
      assert (jc.type = .NONE)
      return { jc with state := (inside is_array).state }) := by
    cases is_array
    · simp only [Bool.false_eq_true, if_false, Parser.perform, pop_back_pushed, ok_bind, Parser.callback, cson_parse_callback] at hbegin ⊢
      rw [show (jc.pushed []).ctx = jc.ctx from rfl, hbegin]
      rfl
    · simp only [if_true, Parser.perform, pop_back_pushed, ok_bind, Parser.callback, cson_parse_callback] at hbegin ⊢
      rw [show (jc.pushed []).ctx = jc.ctx from rfl, hbegin]
      rfl
  have hpush := @push_spec D setup { jc.pushed [] with ctx := p } c.frames.length (h.modes ▸ c.length_modes)
    h.fixed h.wf.length_le (if is_array then .ARRAY else .KEY)
  refine ⟨p, hbuilds, ?_⟩
  rw [hperform, hpush]
  split
  · rw [ok_bind, show assert _ = Except.ok () from hnone]
    rfl
  · rfl

/-- An opening bracket. -/
theorem Between.open (h : Between setup jc c) (hphase : c.phase = .start ∨ c.phase = .value ∨ c.phase = .element)
    (is_array : Bool) (b : UInt8) :
    Outcome setup ((jc.pushed [b]).perform lib (if is_array then .AA else .OA))
      (c.step setup.limit (if is_array then .LSQRB else .LCURB)) := by
  obtain ⟨p, hbuilds, hperform⟩ := @Between.begin _ lib _ _ _ h hphase is_array b
  have hbuffer : (jc.pushed []).parse_buffer = [] := by simp [Parser.pushed, h.buffer]
  have hstep : c.step setup.limit (if is_array then .LSQRB else .LCURB) = c.opens setup.limit (inside is_array) (opened is_array) := by
    cases is_array <;> rfl
  have hopens : (c.phase = .start ∨ c.phase = .value ∨ c.phase = .element) ∧ c.frames.length < setup.limit ↔
      c.frames.length < setup.limit := and_iff_right hphase
  have hroot : c.root = none := h.wf.root_none (by rcases hphase with hp | hp | hp <;> simp [hp])
  rw [hperform]
  by_cases hlimit : c.frames.length < setup.limit
  · have hnext : c.step setup.limit (if is_array then .LSQRB else .LCURB) =
        some ⟨inside is_array, opened is_array :: c.frames, none⟩ := by
      rw [hstep, Config.opens, if_pos (hopens.mpr hlimit), hroot]
    rw [hnext, if_pos hlimit]
    refine ⟨jc.begun p is_array, rfl, ?_⟩
    refine h.toQuiet.between ⟨(h.wf.step hnext).1, hbuilds, ?_, h.fixed⟩ h.type rfl hbuffer
      rfl rfl rfl h.surrogate
    rw [modes_opened h.wf hphase]
    exact congrArg _ h.modes
  · rw [hstep, Config.opens, if_neg (hlimit ∘ hopens.mp), if_neg hlimit]
    exact ⟨setup.full, rfl, setup.full_harmless⟩

/-- The value of one token that the parser has in its buffer. -/
def Parser.scalar (lib : Doubles D) (jc : Parser D) : Option (Value Bytes D) :=
  match jc.type with
  | .NONE => none
  | .FLOAT => some (.double (if lib.is_zero (lib.strtod jc.parse_buffer) then lib.zero else lib.strtod jc.parse_buffer))
  | .INTEGER => some (.integer (sscanf_lld jc.parse_buffer))
  | .NULL => some .null
  | .TRUE => some (.bool true)
  | .FALSE => some (.bool false)
  | .STRING => some (.string (cson_new_string jc.parse_buffer))

theorem Parser.nesting_scalar {v : Value Bytes D} (hv : jc.scalar lib = some v) : v.nesting = 0 := by
  unfold Parser.scalar at hv
  split at hv <;> cases hv <;> simp only [Value.nesting]

/-- The value in the buffer is handed over. -/
theorem Builds.settle (h : Builds jc.ctx c) (hwf : c.WellFormed limit) (hphase : c.phase = .value ∨ c.phase = .element)
    {v : Value Bytes D} (hv : jc.scalar lib = some v) : ∃ ctx, jc.settle lib = .ok ctx ∧ Builds ctx (c.add v) := by
  obtain ⟨frame, frames, hc, hready, hkind⟩ := hwf.expecting hphase
  rw [hc] at h ⊢
  unfold Parser.scalar at hv
  unfold Parser.settle
  split at hv
  · cases hv
  all_goals
    obtain rfl := Option.some.inj hv
    exact h.push_scalar hready hkind fun _ hnode => ⟨Nat.lt_succ_self _, hnode⟩

theorem modes_add (h : c.WellFormed limit) (hphase : c.phase = .value ∨ c.phase = .element) (v : Value Bytes D) :
    (c.add v).modes = c.modes := by
  obtain ⟨frame, frames, hc, -, -⟩ := h.expecting hphase
  rw [hc]
  rcases hphase with hp | hp <;> simp [Config.modes, Config.add, inner_mode, hp, Frame.mode_add]

/-- A number or a keyword, that the next byte may end. -/
theorem Tracks.settles (h : Tracks setup jc c) (hquiet : Quiet jc) (hsurrogate : jc.utf16_high_surrogate = 0) (hphase : c.phase = .value ∨ c.phase = .element)
    {v : Value Bytes D} (hv : jc.scalar lib = some v) (hne : jc.type ≠ .STRING) : Settles lib setup jc (c.add v) where
  toQuiet := hquiet
  surrogate := hsurrogate
  wf := (h.wf.reads hphase (Parser.nesting_scalar hv)).1
  settled := h.builds.settle h.wf hphase hv
  modes := h.modes.trans (modes_add h.wf hphase v).symm
  fixed := h.fixed
  not_string := hne

/-- The end of a string that is a value. -/
theorem Tracks.string_value (h : Tracks setup jc c) (hquiet : Quiet jc) (hsurrogate : jc.utf16_high_surrogate = 0) (htype : jc.type = .STRING)
    (hphase : c.phase = .value ∨ c.phase = .element) (b : UInt8) :
    ∃ jc', (jc.pushed [b]).perform lib .SE = .ok jc' ∧
      Between setup jc' (c.add (.string (cson_new_string jc.parse_buffer))) := by
  have hv : jc.scalar lib = some (.string (cson_new_string jc.parse_buffer)) := by simp only [Parser.scalar, htype]
  obtain ⟨ctx, hsettle, hbuilds⟩ := h.builds.settle h.wf hphase hv
  have hsame : (jc.pushed []).settle lib = .ok ctx := by
    simpa [Parser.settle, Parser.pushed, Parser.parse_buffer_reserve_for] using hsettle
  have hparse := parse_parse_buffer_eq hsame
  have hstring : assert ((jc.pushed []).type = .STRING) = .ok () := assert_true (decide_eq_true htype)
  obtain ⟨frame, frames, hc, -, -⟩ := h.wf.expecting hphase
  have hhead : (jc.pushed []).stack.head? = some frame.mode := by
    show jc.stack.head? = _
    rw [h.modes, hc]
    rcases hphase with hp | hp <;> simp [Config.modes, inner_mode, hp]
  refine ⟨{ jc.pushed [] with ctx, parse_buffer := [], type := .NONE, state := .OK }, ?_, ?_⟩
  · simp only [Parser.perform, pop_back_pushed, ok_bind, hhead]
    cases frame <;> simp only [Frame.mode, hstring, ok_bind, hparse] <;> rfl
  · refine hquiet.between ⟨(h.wf.reads hphase rfl).1, hbuilds, ?_, h.fixed⟩ rfl ?_ rfl rfl rfl rfl hsurrogate
    · exact h.modes.trans (modes_add h.wf hphase _).symm
    · rw [hc]
      rfl

/-- The end of a string that is a key. -/
theorem Tracks.string_key (h : Tracks setup jc c) (hquiet : Quiet jc) (hsurrogate : jc.utf16_high_surrogate = 0) (htype : jc.type = .STRING)
    (hphase : c.phase = .member ∨ c.phase = .key) (b : UInt8) :
    ∃ jc' c', (jc.pushed [b]).perform lib .SE = .ok jc' ∧ Between setup jc' c' ∧
      c.step setup.limit (.STRING (cson_new_string jc.parse_buffer)) = some c' := by
  have hwf := h.wf
  have hbuilds := h.builds
  have hmodes : (jc.pushed []).stack = c.modes := h.modes
  have hstring : assert ((jc.pushed []).type = .STRING) = .ok () := assert_true (decide_eq_true htype)
  have hbuffer : (jc.pushed []).parse_buffer = jc.parse_buffer := by simp [Parser.pushed]
  obtain ⟨phase, frames, root⟩ := c
  obtain ⟨kvp, rest, rfl⟩ : ∃ kvp rest, frames = .object kvp none :: rest := by
    rcases hphase with rfl | rfl
    · match frames, hwf.shape with
      | .object [] none :: rest, _ => exact ⟨[], rest, rfl⟩
    · match frames, hwf.shape with
      | .object (m :: kvp) none :: rest, _ => exact ⟨m :: kvp, rest, rfl⟩
  obtain rfl : root = none := hwf.root_none_of_frames (by simp)
  obtain ⟨p, hkey, hnext⟩ := hbuilds.key lib jc.parse_buffer
  have hstep : Config.step setup.limit ⟨phase, .object kvp none :: rest, none⟩ (.STRING (cson_new_string jc.parse_buffer)) =
      some ⟨.colon, .object kvp (some (cson_new_string jc.parse_buffer)) :: rest, none⟩ := by
    rcases hphase with rfl | rfl <;> rfl
  have hstack : (jc.pushed []).stack = .KEY :: (rest.map Frame.mode ++ [.DONE]) := by
    rw [hmodes]
    rcases hphase with rfl | rfl <;> rfl
  have hhead : (jc.pushed []).stack.head? = some .KEY := congrArg List.head? hstack
  refine ⟨{ jc.pushed [] with ctx := p, parse_buffer := [], type := .NONE, state := .CO }, _, ?_, ?_, hstep⟩
  · simp only [Parser.perform, pop_back_pushed, ok_bind, hhead, hstring, Parser.callback, hbuffer]
    rw [show (jc.pushed []).ctx = jc.ctx from rfl, hkey]
    rfl
  · exact hquiet.between ⟨(hwf.step hstep).1, hnext, hstack, h.fixed⟩ rfl rfl rfl rfl rfl rfl hsurrogate

end Actions

end cson
