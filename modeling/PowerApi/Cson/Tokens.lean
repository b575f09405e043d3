import PowerApi.Cson.Value

namespace cson

variable {S D : Type}

/-- The tokens of a JSON text. A scalar is a number, a boolean or `null`. -/
inductive Token (S D : Type) where
  | LCURB | RCURB | LSQRB | RSQRB | COLON | COMMA
  | STRING (s : S)
  | SCALAR (v : Value S D)

/-! The tokens of a value -/

mutual

def Value.tokens : Value S D → List (Token S D)
  | .string s => [.STRING s]
  | .array [] => [.LSQRB, .RSQRB]
  | .array (v :: list) => .LSQRB :: (v.tokens ++ (following list ++ [.RSQRB]))
  | .object [] => [.LCURB, .RCURB]
  | .object ((k, v) :: kvp) => .LCURB :: .STRING k :: .COLON :: (v.tokens ++ (following_members kvp ++ [.RCURB]))
  | .null => [.SCALAR .null]
  | .bool b => [.SCALAR (.bool b)]
  | .integer n => [.SCALAR (.integer n)]
  | .double d => [.SCALAR (.double d)]

/-- The elements after the first one. -/
def following : List (Value S D) → List (Token S D)
  | [] => []
  | v :: list => .COMMA :: (v.tokens ++ following list)

/-- The members after the first one. -/
def following_members : List (S × Value S D) → List (Token S D)
  | [] => []
  | (k, v) :: kvp => .COMMA :: .STRING k :: .COLON :: (v.tokens ++ following_members kvp)

end

mutual

/-- How deep the containers of a value are nested. -/
def Value.nesting : Value S D → ℕ
  | .array list => nesting_list list + 1
  | .object kvp => nesting_members kvp + 1
  | _ => 0

def nesting_list : List (Value S D) → ℕ
  | [] => 0
  | v :: list => max v.nesting (nesting_list list)

def nesting_members : List (S × Value S D) → ℕ
  | [] => 0
  | (_, v) :: kvp => max v.nesting (nesting_members kvp)

end

namespace Value

/-- The values that a text can be. -/
def is_container : Value S D → Bool
  | .array _ | .object _ => true
  | _ => false

/-- The values that are one token. -/
def is_scalar : Value S D → Bool
  | .null | .bool _ | .integer _ | .double _ => true
  | _ => false

end Value

/-! The machine that reads tokens -/

/-- What can come next: the text, an element or the end of a new array, a value, a member or the end of
a new object, a key, a colon, and what follows a value. -/
inductive Phase where
  | start | element | value | member | key | colon | after
  deriving DecidableEq, Repr

/-- The containers that are open, the innermost first, and in the end the value. -/
structure Config (S D : Type) where
  phase : Phase
  frames : List (Frame S D)
  root : Option (Value S D)

namespace Config

def initial : Config S D := ⟨.start, [], none⟩

/-- A value is complete. -/
def add (v : Value S D) (c : Config S D) : Config S D :=
  match c.frames with
  | [] => ⟨.after, [], some v⟩
  | frame :: frames => ⟨.after, frame.add v :: frames, c.root⟩

/-- A container is opened, if it is not nested too deep. -/
def opens (limit : ℕ) (phase : Phase) (frame : Frame S D) (c : Config S D) : Option (Config S D) :=
  if (c.phase = .start ∨ c.phase = .value ∨ c.phase = .element) ∧ c.frames.length < limit then
    some ⟨phase, frame :: c.frames, c.root⟩
  else
    none

/-- The innermost container is closed, if it is of the given kind. -/
def closes (is_array : Bool) (empty : Phase) (c : Config S D) : Option (Config S D) :=
  match c.frames with
  | [] => none
  | frame :: frames =>
    if frame.is_array = is_array ∧ (c.phase = .after ∨ c.phase = empty) then
      some ({ c with frames }.add frame.close)
    else
      none

def step (limit : ℕ) (c : Config S D) : Token S D → Option (Config S D)
  | .LCURB => c.opens limit .member (.object [] none)
  | .LSQRB => c.opens limit .element (.array [])
  | .RCURB => c.closes false .member
  | .RSQRB => c.closes true .element
  | .COLON => if c.phase = .colon then some { c with phase := .value } else none
  | .COMMA =>
    match c.phase, c.frames with
    | .after, .array _ :: _ => some { c with phase := .value }
    | .after, .object _ _ :: _ => some { c with phase := .key }
    | _, _ => none
  | .STRING s =>
    match c.phase, c.frames with
    | .member, .object kvp _ :: frames => some { c with phase := .colon, frames := .object kvp (some s) :: frames }
    | .key, .object kvp _ :: frames => some { c with phase := .colon, frames := .object kvp (some s) :: frames }
    | .value, _ => some (c.add (.string s))
    | .element, _ => some (c.add (.string s))
    | _, _ => none
  | .SCALAR v => if (c.phase = .value ∨ c.phase = .element) ∧ v.is_scalar then some (c.add v) else none

def run (limit : ℕ) (c : Config S D) (tokens : List (Token S D)) : Option (Config S D) :=
  tokens.foldlM (step limit) c

/-- The text is over, and `v` is what it stands for. -/
def Final (c : Config S D) (v : Value S D) : Prop := c.phase = .after ∧ c.frames = [] ∧ c.root = some v

end Config

/-! Every value is read from its tokens -/

section Reads

variable {limit : ℕ} {c : Config S D} {frames : List (Frame S D)} {root : Option (Value S D)}

/-- A value can be read: the text itself if it is a container, and an element of a container. -/
def Config.Expects (c : Config S D) (v : Value S D) : Prop :=
  c.phase = .value ∨ c.phase = .element ∨ c.phase = .start ∧ v.is_container

theorem Config.Expects.opens {v : Value S D} (h : c.Expects v) {phase : Phase} {frame : Frame S D}
    (hlimit : c.frames.length < limit) : c.opens limit phase frame = some ⟨phase, frame :: c.frames, c.root⟩ := by
  rcases h with hphase | hphase | ⟨hphase, -⟩ <;> simp [Config.opens, hphase, hlimit]

theorem Config.Expects.scalar {v : Value S D} (h : c.Expects v) (hv : v.is_scalar) :
    c.run limit [.SCALAR v] = some (c.add v) := by
  rcases h with hphase | hphase | ⟨-, hcontainer⟩
  · simp [Config.run, Config.step, hphase, hv]
  · simp [Config.run, Config.step, hphase, hv]
  · cases v <;> simp [Value.is_scalar, Value.is_container] at hv hcontainer

theorem Config.run_append (a b : List (Token S D)) : c.run limit (a ++ b) = (c.run limit a).bind fun c => c.run limit b :=
  List.foldlM_append

theorem Config.run_cons (token : Token S D) (b : List (Token S D)) :
    c.run limit (token :: b) = (c.step limit token).bind fun c => c.run limit b := rfl

theorem Config.add_array (v : Value S D) (phase : Phase) (list : List (Value S D)) :
    Config.add v ⟨phase, .array list :: frames, root⟩ = ⟨.after, .array (list ++ [v]) :: frames, root⟩ := rfl

theorem Config.add_object (v : Value S D) (phase : Phase) (kvp : List (S × Value S D)) (k : S) :
    Config.add v ⟨phase, .object kvp (some k) :: frames, root⟩ = ⟨.after, .object (kvp ++ [(k, v)]) none :: frames, root⟩ := rfl

mutual

theorem run_tokens : (v : Value S D) → {c : Config S D} → c.Expects v → v.nesting + c.frames.length ≤ limit →
    c.run limit v.tokens = some (c.add v)
  | .null, _, h, _ => h.scalar rfl
  | .bool _, _, h, _ => h.scalar rfl
  | .integer _, _, h, _ => h.scalar rfl
  | .double _, _, h, _ => h.scalar rfl
  | .string s, c, h, _ => by
    rcases h with hphase | hphase | ⟨-, hcontainer⟩
    · simp [Config.run, Value.tokens, Config.step, hphase]
    · simp [Config.run, Value.tokens, Config.step, hphase]
    · cases hcontainer
  | .array [], c, h, hlimit => by
    have hfits : c.frames.length < limit := by simp only [Value.nesting] at hlimit; omega
    simp only [Value.tokens, Config.run_cons, Config.step, h.opens hfits, Option.bind_some]
    rfl
  | .array (v :: list), c, h, hlimit => by
    simp only [Value.nesting, nesting_list] at hlimit
    have hfits : c.frames.length < limit := by omega
    have hfirst := @run_tokens v ⟨.element, .array [] :: c.frames, c.root⟩ (.inr (.inl rfl))
      (by simp only [List.length_cons]; omega)
    have hrest := run_following c.frames c.root list [v] (by omega)
    simp only [Value.tokens, Config.run_cons, Config.step, h.opens hfits, Option.bind_some]
    rw [Config.run_append, hfirst, Option.bind_some, Config.run_append, Config.add_array, List.nil_append, hrest]
    rfl
  | .object [], c, h, hlimit => by
    have hfits : c.frames.length < limit := by simp only [Value.nesting] at hlimit; omega
    simp only [Value.tokens, Config.run_cons, Config.step, h.opens hfits, Option.bind_some]
    rfl
  | .object ((k, v) :: kvp), c, h, hlimit => by
    simp only [Value.nesting, nesting_members] at hlimit
    have hfits : c.frames.length < limit := by omega
    have hfirst := @run_tokens v ⟨.value, .object [] (some k) :: c.frames, c.root⟩ (.inl rfl)
      (by simp only [List.length_cons]; omega)
    have hrest := run_following_members c.frames c.root kvp [(k, v)] (by omega)
    simp only [Value.tokens, Config.run_cons, Config.step, h.opens hfits, Option.bind_some, if_true]
    rw [Config.run_append, hfirst, Option.bind_some, Config.run_append, Config.add_object, List.nil_append, hrest]
    rfl

theorem run_following (frames : List (Frame S D)) (root : Option (Value S D)) :
    (list before : List (Value S D)) → nesting_list list + (frames.length + 1) ≤ limit →
    Config.run limit ⟨.after, .array before :: frames, root⟩ (following list) =
      some ⟨.after, .array (before ++ list) :: frames, root⟩
  | [], before, _ => by rw [List.append_nil]; rfl
  | v :: list, before, hlimit => by
    simp only [nesting_list] at hlimit
    rw [following, Config.run_cons, Config.step, Option.bind_some, Config.run_append,
      run_tokens v (.inl rfl) (by simp only [List.length_cons]; omega), Option.bind_some, Config.add_array,
      run_following frames root list (before ++ [v]) (by omega), List.append_assoc, List.singleton_append]

theorem run_following_members (frames : List (Frame S D)) (root : Option (Value S D)) :
    (kvp before : List (S × Value S D)) → nesting_members kvp + (frames.length + 1) ≤ limit →
    Config.run limit ⟨.after, .object before none :: frames, root⟩ (following_members kvp) =
      some ⟨.after, .object (before ++ kvp) none :: frames, root⟩
  | [], before, _ => by rw [List.append_nil]; rfl
  | (k, v) :: kvp, before, hlimit => by
    simp only [nesting_members] at hlimit
    simp only [following_members, Config.run_cons, Config.step, Option.bind_some, if_true]
    rw [Config.run_append, run_tokens v (.inl rfl) (by simp only [List.length_cons]; omega), Option.bind_some,
      Config.add_object, run_following_members frames root kvp (before ++ [(k, v)]) (by omega), List.append_assoc,
      List.singleton_append]

end

end Reads

/-! Nothing else is read -/

namespace Frame

/-- The tokens of what is in the container, from its opening bracket on. -/
def content : Frame S D → List (Token S D)
  | array [] => [.LSQRB]
  | array (v :: list) => .LSQRB :: (v.tokens ++ following list)
  | object [] _ => [.LCURB]
  | object ((k, v) :: kvp) _ => .LCURB :: .STRING k :: .COLON :: (v.tokens ++ following_members kvp)

/-- The tokens up to the next value, but for the colon. -/
def lead (frame : Frame S D) : List (Token S D) :=
  frame.content ++
    (match frame with
      | array [] | object [] _ => []
      | _ => [.COMMA]) ++
    frame.key.toList.map .STRING

/-- The tokens up to the next value. -/
def text (frame : Frame S D) : List (Token S D) := frame.lead ++ frame.key.toList.map fun _ => .COLON

/-- The bracket at the end. -/
def bracket (frame : Frame S D) : Token S D := if frame.is_array then .RSQRB else .RCURB

end Frame

/-- The tokens of the containers around the innermost one. -/
def outer : List (Frame S D) → List (Token S D)
  | [] => []
  | frame :: frames => outer frames ++ frame.text

namespace Config

/-- The tokens that have been read. -/
def emitted (c : Config S D) : List (Token S D) :=
  match c.frames with
  | [] => c.root.elim [] Value.tokens
  | frame :: frames =>
    outer frames ++
      match c.phase with
      | .after => frame.content
      | .colon => frame.lead
      | _ => frame.text

/-- What the phase says of the innermost container. -/
def Shape : Phase → List (Frame S D) → Prop
  | .start, frames => frames = []
  | .element, .array [] :: _ => True
  | .value, frame :: _ => frame.Ready
  | .member, .object [] none :: _ => True
  | .key, .object (_ :: _) none :: _ => True
  | .colon, .object _ (some _) :: _ => True
  | .after, [] => True
  | .after, .array (_ :: _) :: _ => True
  | .after, .object (_ :: _) none :: _ => True
  | _, _ => False

/-- No container is nested deeper than the limit. -/
def Fits (limit : ℕ) : List (Frame S D) → Prop
  | [] => True
  | frame :: frames => frame.close.nesting + frames.length ≤ limit ∧ Fits limit frames

/-- The state in which the machine can be. -/
structure WellFormed (limit : ℕ) (c : Config S D) : Prop where
  shape : Shape c.phase c.frames
  ready : ∀ frame ∈ c.frames.tail, frame.Ready
  fits : Fits limit c.frames
  root : ∀ v ∈ c.root, c.phase = .after ∧ c.frames = [] ∧ v.is_container ∧ v.nesting ≤ limit
  rooted : c.phase = .after → c.frames = [] → c.root.isSome

theorem wellFormed_initial (limit : ℕ) : (initial : Config S D).WellFormed limit where
  shape := rfl
  ready := by simp [initial]
  fits := trivial
  root := by simp [initial]
  rooted := by simp [initial]

end Config

section Emitted

variable {limit : ℕ} {c c' : Config S D} {frame : Frame S D} {frames : List (Frame S D)} {v : Value S D}

theorem following_append (list : List (Value S D)) (v : Value S D) :
    following (list ++ [v]) = following list ++ .COMMA :: v.tokens := by
  induction list with
  | nil => simp [following]
  | cons w list ih => simp [following, ih]

theorem following_members_append (kvp : List (S × Value S D)) (k : S) (v : Value S D) :
    following_members (kvp ++ [(k, v)]) = following_members kvp ++ .COMMA :: .STRING k :: .COLON :: v.tokens := by
  induction kvp with
  | nil => simp [following_members]
  | cons w kvp ih => simp [following_members, ih]

theorem Frame.content_add (hready : frame.Ready) (v : Value S D) : (frame.add v).content = frame.text ++ v.tokens := by
  match frame, hready with
  | .array [], _ => simp [add, content, text, lead, key, following]
  | .array (_ :: list), _ => simp [add, content, text, lead, key, following_append]
  | .object [] (some _), _ => simp [add, content, text, lead, key, following_members]
  | .object (_ :: kvp) (some _), _ => simp [add, content, text, lead, key, following_members_append]

theorem Frame.tokens_close (frame : Frame S D) : frame.close.tokens = frame.content ++ [frame.bracket] := by
  match frame with
  | .array [] => rfl
  | .array (_ :: _) => simp [close, content, bracket, is_array, Value.tokens]
  | .object [] _ => rfl
  | .object (_ :: _) _ => simp [close, content, bracket, is_array, Value.tokens]

theorem nesting_list_append (list : List (Value S D)) (v : Value S D) :
    nesting_list (list ++ [v]) = max (nesting_list list) v.nesting := by
  induction list with
  | nil => simp [nesting_list]
  | cons w list ih => simp [nesting_list, ih, Nat.max_assoc]

theorem nesting_members_append (kvp : List (S × Value S D)) (k : S) (v : Value S D) :
    nesting_members (kvp ++ [(k, v)]) = max (nesting_members kvp) v.nesting := by
  induction kvp with
  | nil => simp [nesting_members]
  | cons w kvp ih => simp [nesting_members, ih, Nat.max_assoc]

theorem Frame.nesting_close_add (hready : frame.Ready) (v : Value S D) :
    (frame.add v).close.nesting = max frame.close.nesting (v.nesting + 1) := by
  match frame, hready with
  | .array list, _ => simp [add, close, Value.nesting, nesting_list_append, Nat.add_max_add_right]
  | .object kvp (some _), _ => simp [add, close, Value.nesting, nesting_members_append, Nat.add_max_add_right]

theorem Frame.shape_add (hready : frame.Ready) (v : Value S D) (frames : List (Frame S D)) :
    Config.Shape .after (frame.add v :: frames) := by
  match frame, hready with
  | .array [], _ => trivial
  | .array (_ :: _), _ => trivial
  | .object [] (some _), _ => trivial
  | .object (_ :: _) (some _), _ => trivial

/-- A complete value is added to the innermost container, or is the whole text. -/
theorem Config.add_spec (hready : ∀ frame ∈ frames, frame.Ready) (hfits : Fits limit frames)
    (hv : v.nesting + frames.length ≤ limit) (hcontainer : frames = [] → v.is_container) (phase : Phase) :
    (Config.add v ⟨phase, frames, none⟩).WellFormed limit ∧
      (Config.add v ⟨phase, frames, none⟩).emitted = outer frames ++ v.tokens := by
  cases frames with
  | nil =>
    refine ⟨⟨trivial, by simp [add], trivial, ?_, fun _ _ => rfl⟩, rfl⟩
    rintro w ⟨⟩
    exact ⟨rfl, rfl, hcontainer rfl, hv⟩
  | cons frame frames =>
    have hframe := hready frame List.mem_cons_self
    have hnesting := frame.nesting_close_add hframe v
    simp only [List.length_cons] at hv
    refine ⟨⟨frame.shape_add hframe v frames, fun f hf => hready f (List.mem_cons_of_mem _ hf),
      ⟨?_, hfits.2⟩, by simp [add], by simp [add]⟩, ?_⟩
    · have := hfits.1
      rw [hnesting]
      omega
    · simp only [emitted, add, frame.content_add hframe, outer, List.append_assoc]

namespace Config.WellFormed

theorem root_none (h : c.WellFormed limit) (hphase : c.phase ≠ .after) : c.root = none := by
  cases hroot : c.root with
  | none => rfl
  | some v => exact absurd (h.root v hroot).1 hphase

theorem root_none_of_frames (h : c.WellFormed limit) (hframes : c.frames ≠ []) : c.root = none := by
  cases hroot : c.root with
  | none => rfl
  | some v => exact absurd (h.root v hroot).2.1 hframes

/-- Where a value can come next, every container has room for it, and everything up to it has been read. -/
theorem expects (h : c.WellFormed limit) (hphase : c.phase = .start ∨ c.phase = .value ∨ c.phase = .element) :
    (∀ frame ∈ c.frames, frame.Ready) ∧ c.emitted = outer c.frames := by
  obtain ⟨phase, frames, root⟩ := c
  have hnone : root = none := h.root_none (by rcases hphase with rfl | rfl | rfl <;> simp)
  subst hnone
  have hshape := h.shape
  rcases hphase with rfl | rfl | rfl
  · rw [show frames = [] from hshape]
    exact ⟨by simp, rfl⟩
  · match frames, hshape with
    | frame :: frames, hframe => exact ⟨List.forall_mem_cons.mpr ⟨hframe, h.ready⟩, rfl⟩
  · match frames, hshape with
    | .array [] :: frames, _ => exact ⟨List.forall_mem_cons.mpr ⟨trivial, h.ready⟩, rfl⟩

theorem opens (h : c.WellFormed limit) {phase : Phase} (hstep : c.opens limit phase frame = some c')
    (hshape : Shape phase (frame :: c.frames)) (hphase : phase ≠ .after ∧ phase ≠ .colon)
    (hfits : frame.close.nesting = 1) :
    c'.WellFormed limit ∧ c'.emitted = c.emitted ++ frame.text := by
  unfold Config.opens at hstep
  split at hstep
  · next hopens =>
    obtain ⟨hready, hemitted⟩ := h.expects hopens.1
    have hnone : c.root = none := by
      rcases hopens.1 with hc | hc | hc <;> exact h.root_none (by rw [hc]; simp)
    obtain rfl := Option.some.inj hstep
    refine ⟨⟨hshape, hready, ⟨?_, h.fits⟩, by simp [hnone], fun hafter => absurd hafter hphase.1⟩, ?_⟩
    · rw [hfits]
      omega
    · rw [hemitted]
      cases phase <;> first | rfl | exact absurd rfl hphase.1 | exact absurd rfl hphase.2
  · cases hstep

theorem closes (h : c.WellFormed limit) {is_array : Bool} {empty : Phase}
    (hempty : ∀ (frame : Frame S D) (frames : List (Frame S D)), Shape empty (frame :: frames) →
      frame.is_array = is_array → frame.text = frame.content)
    (hphase : empty = .element ∨ empty = .member) (hstep : c.closes is_array empty = some c') :
    c'.WellFormed limit ∧ c'.emitted = c.emitted ++ [if is_array then .RSQRB else .RCURB] := by
  obtain ⟨phase, frames, root⟩ := c
  cases frames with
  | nil => cases hstep
  | cons frame frames =>
    have hnone : root = none := h.root_none_of_frames (by simp)
    subst hnone
    simp only [Config.closes] at hstep
    split at hstep
    · next hcloses =>
      have hcontainer : frame.close.is_container := by cases frame <;> rfl
      obtain rfl := Option.some.inj hstep
      obtain ⟨hwf, hemitted⟩ := Config.add_spec h.ready h.fits.2 h.fits.1 (fun _ => hcontainer) phase
      refine ⟨hwf, hemitted.trans ?_⟩
      have hcontent : Config.emitted ⟨phase, frame :: frames, none⟩ = outer frames ++ frame.content := by
        rcases hcloses.2 with rfl | rfl
        · rfl
        · rw [← hempty frame frames h.shape hcloses.1]
          rcases hphase with rfl | rfl <;> rfl
      rw [hcontent, frame.tokens_close, Frame.bracket, hcloses.1, List.append_assoc]
      rfl
    · cases hstep

/-- A value of one token. -/
theorem reads (h : c.WellFormed limit) (hphase : c.phase = .value ∨ c.phase = .element) (hv : v.nesting = 0) :
    (c.add v).WellFormed limit ∧ (c.add v).emitted = c.emitted ++ v.tokens := by
  obtain ⟨hready, hemitted⟩ := h.expects (.inr hphase)
  obtain ⟨phase, frames, root⟩ := c
  have hnone : root = none := h.root_none (by rcases hphase with rfl | rfl <;> simp)
  subst hnone
  have hne : frames ≠ [] := by
    rintro rfl
    rcases hphase with rfl | rfl <;> exact h.shape.elim
  have hlength : frames.length ≤ limit := by
    cases frames with
    | nil => simp
    | cons frame frames =>
      have hfits := h.fits.1
      have : 1 ≤ frame.close.nesting := by cases frame <;> simp [Frame.close, Value.nesting]
      simp only [List.length_cons]
      omega
  rw [hemitted]
  exact Config.add_spec hready h.fits (hv ▸ (Nat.zero_add _).symm ▸ hlength) (fun hnil => absurd hnil hne) phase

end Config.WellFormed

/-- One token leads from one state to another, and is what has been read besides. -/
theorem Config.WellFormed.step (h : c.WellFormed limit) {token : Token S D} (hstep : c.step limit token = some c') :
    c'.WellFormed limit ∧ c'.emitted = c.emitted ++ [token] := by
  cases token with
  | LCURB => exact h.opens hstep trivial ⟨by simp, by simp⟩ rfl
  | LSQRB => exact h.opens hstep trivial ⟨by simp, by simp⟩ rfl
  | RCURB =>
    refine h.closes (fun frame frames hshape _ => ?_) (.inr rfl) hstep
    match frame, hshape with
    | .object [] none, _ => rfl
  | RSQRB =>
    refine h.closes (fun frame frames hshape _ => ?_) (.inl rfl) hstep
    match frame, hshape with
    | .array [], _ => rfl
  | SCALAR v =>
    simp only [Config.step] at hstep
    split at hstep
    · next hv =>
      obtain rfl := Option.some.inj hstep
      have htokens : v.tokens = [.SCALAR v] := by cases v <;> simp_all [Value.is_scalar, Value.tokens]
      have hnesting : v.nesting = 0 := by cases v <;> simp_all [Value.is_scalar, Value.nesting]
      rw [← htokens]
      exact h.reads hv.1 hnesting
    · cases hstep
  | COLON =>
    obtain ⟨phase, frames, root⟩ := c
    simp only [Config.step] at hstep
    split at hstep
    · next hphase =>
      obtain rfl := Option.some.inj hstep
      obtain rfl : phase = .colon := hphase
      have hnone : root = none := h.root_none (by simp)
      match frames, h with
      | .object kvp (some k) :: frames, h =>
        exact ⟨⟨rfl, h.ready, h.fits, by simp [hnone], by simp⟩, by
          simp [emitted, Frame.text, Frame.key]⟩
    · cases hstep
  | COMMA =>
    obtain ⟨phase, frames, root⟩ := c
    simp only [Config.step] at hstep
    split at hstep
    · next list frames =>
      obtain rfl := Option.some.inj hstep
      have hnone : root = none := h.root_none_of_frames (by simp)
      match list, h with
      | v :: list, h =>
        exact ⟨⟨trivial, h.ready, h.fits, by simp [hnone], by simp⟩, by
          simp [emitted, Frame.text, Frame.lead, Frame.key]⟩
    · next kvp key frames =>
      obtain rfl := Option.some.inj hstep
      have hnone : root = none := h.root_none_of_frames (by simp)
      match kvp, key, h with
      | m :: kvp, none, h =>
        exact ⟨⟨trivial, h.ready, h.fits, by simp [hnone], by simp⟩, by
          simp [emitted, Frame.text, Frame.lead, Frame.key]⟩
    · cases hstep
  | STRING s =>
    obtain ⟨phase, frames, root⟩ := c
    simp only [Config.step] at hstep
    split at hstep
    · next kvp key frames =>
      obtain rfl := Option.some.inj hstep
      have hnone : root = none := h.root_none_of_frames (by simp)
      match kvp, key, h with
      | [], none, h =>
        exact ⟨⟨trivial, h.ready, h.fits, by simp [hnone], by simp⟩, by
          simp [emitted, Frame.text, Frame.lead, Frame.key, Frame.content]⟩
    · next kvp key frames =>
      obtain rfl := Option.some.inj hstep
      have hnone : root = none := h.root_none_of_frames (by simp)
      match kvp, key, h with
      | m :: kvp, none, h =>
        exact ⟨⟨trivial, h.ready, h.fits, by simp [hnone], by simp⟩, by
          simp [emitted, Frame.text, Frame.lead, Frame.key, Frame.content]⟩
    · obtain rfl := Option.some.inj hstep
      exact h.reads (.inl rfl) rfl
    · obtain rfl := Option.some.inj hstep
      exact h.reads (.inr rfl) rfl
    · cases hstep

theorem Config.WellFormed.run (h : c.WellFormed limit) {tokens : List (Token S D)} (hrun : c.run limit tokens = some c') :
    c'.WellFormed limit ∧ c'.emitted = c.emitted ++ tokens := by
  induction tokens generalizing c with
  | nil =>
    obtain rfl := Option.some.inj hrun
    exact ⟨h, (List.append_nil _).symm⟩
  | cons token tokens ih =>
    rw [Config.run_cons, Option.bind_eq_some_iff] at hrun
    obtain ⟨mid, hstep, hrest⟩ := hrun
    obtain ⟨hmid, hemitted⟩ := h.step hstep
    obtain ⟨hwf, hall⟩ := ih hmid hrest
    exact ⟨hwf, by rw [hall, hemitted, List.append_assoc, List.singleton_append]⟩

/-- The machine reads the tokens of a container nested not too deep, and nothing else. -/
theorem run_initial_iff {tokens : List (Token S D)} :
    (∃ c, Config.initial.run limit tokens = some c ∧ c.Final v) ↔
      tokens = v.tokens ∧ v.is_container ∧ v.nesting ≤ limit := by
  constructor
  · rintro ⟨c, hrun, hphase, hframes, hroot⟩
    obtain ⟨hwf, hemitted⟩ := (Config.wellFormed_initial limit).run hrun
    obtain ⟨-, -, hcontainer, hnesting⟩ := hwf.root v hroot
    refine ⟨?_, hcontainer, hnesting⟩
    simpa [Config.emitted, hframes, hroot, Config.initial] using hemitted.symm
  · rintro ⟨rfl, hcontainer, hnesting⟩
    exact ⟨_, run_tokens v (.inr (.inr ⟨rfl, hcontainer⟩)) hnesting, rfl, rfl, rfl⟩

end Emitted

end cson
