import PowerApi.Cson.Spelling
import PowerApi.Cson.Tracks

namespace cson

section Unique

variable {S D : Type} {h : Heap S D} {hi hi' : Ref}

mutual

/-- An address stands for one value. -/
theorem Stored.unique : {r : Ref} → (v w : Value S D) → Stored h hi r v → Stored h hi' r w → v = w
  | r, v, w, hv, hw => by
    cases v with
    | array list =>
      obtain ⟨-, refs, hnode, hlist⟩ := hv
      cases w with
      | array list' =>
        obtain ⟨-, refs', hnode', hlist'⟩ := hw
        obtain rfl : refs = refs' := by simpa [hnode] using hnode'
        rw [StoredList.unique list list' hlist hlist']
      | object => obtain ⟨-, refs', hnode', -⟩ := hw; simp [hnode] at hnode'
      | _ => have hnode' := hw.2; simp [hnode] at hnode'
    | object kvp =>
      obtain ⟨-, refs, hnode, hkvp⟩ := hv
      cases w with
      | array => obtain ⟨-, refs', hnode', -⟩ := hw; simp [hnode] at hnode'
      | object kvp' =>
        obtain ⟨-, refs', hnode', hkvp'⟩ := hw
        obtain rfl : refs = refs' := by simpa [hnode] using hnode'
        rw [StoredKvp.unique kvp kvp' hkvp hkvp']
      | _ => have hnode' := hw.2; simp [hnode] at hnode'
    | _ =>
      have hnode := hv.2
      cases w with
      | array => obtain ⟨-, refs', hnode', -⟩ := hw; simp [hnode] at hnode'
      | object => obtain ⟨-, refs', hnode', -⟩ := hw; simp [hnode] at hnode'
      | _ =>
        have hnode' := hw.2
        simp_all

theorem StoredList.unique : {r : Ref} → {refs : List Ref} → (list list' : List (Value S D)) →
    StoredList h hi r refs list → StoredList h hi' r refs list' → list = list'
  | _, [], [], [], _, _ => rfl
  | _, [], [], _ :: _, _, hlist' => hlist'.elim
  | _, [], _ :: _, _, hlist, _ => hlist.elim
  | _, _ :: _, [], _, hlist, _ => hlist.elim
  | _, _ :: _, _ :: _, [], _, hlist' => hlist'.elim
  | _, _ :: _, v :: list, v' :: list', ⟨_, hv, hlist⟩, ⟨_, hv', hlist'⟩ => by
    rw [Stored.unique v v' hv hv', StoredList.unique list list' hlist hlist']

theorem StoredKvp.unique : {r : Ref} → {refs : List (S × Ref)} → (kvp kvp' : List (S × Value S D)) →
    StoredKvp h hi r refs kvp → StoredKvp h hi' r refs kvp' → kvp = kvp'
  | _, [], [], [], _, _ => rfl
  | _, [], [], _ :: _, _, hkvp' => hkvp'.elim
  | _, [], _ :: _, _, hkvp, _ => hkvp.elim
  | _, _ :: _, [], _, hkvp, _ => hkvp.elim
  | _, _ :: _, _ :: _, [], _, hkvp' => hkvp'.elim
  | _, (_, _) :: _, (k, v) :: kvp, (k', v') :: kvp', ⟨hk, _, hv, hkvp⟩, ⟨hk', _, hv', hkvp'⟩ => by
    rw [Stored.unique v v' hv hv', StoredKvp.unique kvp kvp' hkvp hkvp', ← hk, ← hk']

end

end Unique

/-! Reading a text byte by byte -/

section Accepts

variable {D : Type} {lib : Doubles D} {jc : Parser D} {text : Bytes} {v : Value Bytes D}

/-- From here the parser reads the text to its end, and has built the value. -/
def Accepts (lib : Doubles D) (jc : Parser D) (text : Bytes) (v : Value Bytes D) : Prop :=
  ∃ jc' root, text.foldlM (JSON_parser_char lib) jc >>= JSON_parser_done = .ok jc' ∧ jc'.ctx.root = some root ∧
    Stored jc'.ctx.heap jc'.ctx.heap.length root v

theorem accepts_cons {b : UInt8} {jc' : Parser D} (hchar : JSON_parser_char lib jc b = .ok jc') :
    Accepts lib jc (b :: text) v ↔ Accepts lib jc' text v := by
  simp only [Accepts, List.foldlM_cons, hchar, ok_bind]

theorem not_accepts_cons {b : UInt8} {stop : Stop} (hchar : JSON_parser_char lib jc b = .error stop) :
    ¬ Accepts lib jc (b :: text) v := by
  rintro ⟨jc', root, hrun, -⟩
  simp only [List.foldlM_cons, hchar, error_bind] at hrun
  cases hrun

/-- The parser rejects the text. -/
def Rejects (result : Except Stop (Parser D)) : Prop := ∃ error errNo, result = .error (.reject error errNo)

/-- The parser rejects a byte that has no class, and one that its state has no cell for. -/
theorem char_none {b : UInt8} (hclass : char_class b = none) : Rejects (JSON_parser_char lib jc b) :=
  ⟨_, _, by simp only [JSON_parser_char, hclass]; rfl⟩

theorem char_of_add {b : UInt8} {cls : Class} {jc' : Parser D} (hclass : char_class b = some cls)
    (hadd : jc.add_char_to_parse_buffer b cls = .ok jc') : JSON_parser_char lib jc b =
      match cell jc'.state cls with
      | .to next_state => .ok { jc' with state := next_state }
      | .act action => jc'.perform lib action
      | .error => rejected (set_error jc'.state b) := by
  simp only [JSON_parser_char, hclass, hadd, ok_bind]
  rfl

theorem char_eq (hquiet : Quiet jc) {b : UInt8} {cls : Class} (hclass : char_class b = some cls)
    (hkept : jc.type ≠ .NONE ∨ (cls ≠ .SPACE ∧ cls ≠ .WHITE)) : JSON_parser_char lib jc b =
      match cell jc.state cls with
      | .to next_state => .ok { jc.pushed [b] with state := next_state }
      | .act action => (jc.pushed [b]).perform lib action
      | .error => rejected (set_error jc.state b) :=
  char_of_add hclass (add_char_eq hquiet hkept)

theorem char_error (hquiet : Quiet jc) {b : UInt8} {cls : Class} (hclass : char_class b = some cls)
    (hkept : jc.type ≠ .NONE ∨ (cls ≠ .SPACE ∧ cls ≠ .WHITE)) (hcell : cell jc.state cls = .error) :
    Rejects (JSON_parser_char lib jc b) :=
  ⟨_, _, by rw [char_eq hquiet hclass hkept, hcell]⟩

theorem char_to (hquiet : Quiet jc) {b : UInt8} {cls : Class} {next_state : State} (hclass : char_class b = some cls)
    (hkept : jc.type ≠ .NONE ∨ (cls ≠ .SPACE ∧ cls ≠ .WHITE)) (hcell : cell jc.state cls = .to next_state) :
    JSON_parser_char lib jc b = .ok { jc.pushed [b] with state := next_state } := by
  rw [char_eq hquiet hclass hkept, hcell]

theorem char_act (hquiet : Quiet jc) {b : UInt8} {cls : Class} {action : Action} (hclass : char_class b = some cls)
    (hkept : jc.type ≠ .NONE ∨ (cls ≠ .SPACE ∧ cls ≠ .WHITE)) (hcell : cell jc.state cls = .act action) :
    JSON_parser_char lib jc b = (jc.pushed [b]).perform lib action := by
  rw [char_eq hquiet hclass hkept, hcell]

/-- Without comments, a slash is rejected where one could begin. -/
theorem char_rejects (hquiet : Quiet jc) (hcomments : jc.allow_comments = false) {b : UInt8} {cls : Class}
    (hclass : char_class b = some cls) (hkept : jc.type ≠ .NONE ∨ (cls ≠ .SPACE ∧ cls ≠ .WHITE))
    (hcell : cell jc.state cls = .error ∨ cell jc.state cls = .act .CB) : Rejects (JSON_parser_char lib jc b) := by
  rcases hcell with herror | hcb
  · exact char_error hquiet hclass hkept herror
  · have hpushed : (jc.pushed [b]).allow_comments = false := hcomments
    refine ⟨.NONE, .OK, ?_⟩
    rw [char_act hquiet hclass hkept hcb]
    simp only [Parser.perform, hpushed]
    rfl

/-- A text that ends here is accepted only between two tokens. -/
theorem not_accepts_nil (hok : jc.state ≠ .OK) (hgo : jc.state ≠ .GO) : ¬ Accepts lib jc [] v := by
  rintro ⟨jc', root, hrun, -⟩
  simp only [List.foldlM_nil, pure_bind, JSON_parser_done, hok, hgo, or_self, if_false] at hrun
  cases hrun

/-- From the state one byte alone leads on, to the next one. -/
def leads (state : State) (b : UInt8) (next_state : State) (x : UInt8) : Bool :=
  match char_class x with
  | none => x ≠ b
  | some cls => if x = b then cell state cls = .to next_state else cell state cls = .error || cell state cls = .act .CB

theorem accepts_only (hquiet : Quiet jc) (hcomments : jc.allow_comments = false) (htype : jc.type ≠ .NONE)
    {b : UInt8} {next_state : State} (hleads : ∀ x, leads jc.state b next_state x = true) (hok : jc.state ≠ .OK) (hgo : jc.state ≠ .GO) :
    Accepts lib jc text v ↔ ∃ rest, text = b :: rest ∧ Accepts lib { jc.pushed [b] with state := next_state } rest v := by
  cases text with
  | nil =>
    refine ⟨fun haccepts => absurd haccepts (not_accepts_nil hok hgo), ?_⟩
    rintro ⟨rest, htext, -⟩
    cases htext
  | cons x text =>
    have hx := hleads x
    unfold leads at hx
    cases hclass : char_class x with
    | none =>
      simp only [hclass, ne_eq, decide_not, Bool.not_eq_true', decide_eq_false_iff_not] at hx
      obtain ⟨error, errNo, hstop⟩ := @char_none D lib jc x hclass
      refine ⟨fun haccepts => absurd haccepts (not_accepts_cons hstop), ?_⟩
      rintro ⟨rest, htext, -⟩
      exact absurd (List.cons.inj htext).1 hx
    | some cls =>
      simp only [hclass] at hx
      by_cases heq : x = b
      · subst heq
        rw [if_pos rfl] at hx
        rw [accepts_cons (char_to hquiet hclass (.inl htype) (of_decide_eq_true hx))]
        constructor
        · exact fun haccepts => ⟨text, rfl, haccepts⟩
        · rintro ⟨rest, htext, haccepts⟩
          obtain rfl := (List.cons.inj htext).2
          exact haccepts
      · rw [if_neg heq, Bool.or_eq_true, decide_eq_true_eq, decide_eq_true_eq] at hx
        obtain ⟨error, errNo, hstop⟩ := @char_rejects D lib jc hquiet hcomments x cls hclass (.inl htype) hx
        refine ⟨fun haccepts => absurd haccepts (not_accepts_cons hstop), ?_⟩
        rintro ⟨rest, htext, -⟩
        exact absurd (List.cons.inj htext).1 heq

/-- The parser after a value, which it has in its buffer where that is a number or a keyword. -/
structure Pending (lib : Doubles D) (setup : Setup) (jc : Parser D) (c : Config Bytes D) : Prop extends
    Settles lib setup jc c where
  state : jc.state = .OK
  phase : c.phase = .after
  inner : jc.type = .NONE ∨ c.frames ≠ []

/-- The texts up to a length are read right wherever the parser stands between two tokens. -/
def ReadsRight (lib : Doubles D) (setup : Setup) (v : Value Bytes D) (n : ℕ) : Prop :=
  ∀ text : Bytes, text.length ≤ n →
    (∀ (jc : Parser D) (c : Config Bytes D), Between setup jc c →
      (Accepts lib jc text v ↔ Lang lib setup.point setup.limit c text v)) ∧
    (∀ (jc : Parser D) (c : Config Bytes D), Pending lib setup jc c →
      (Accepts lib jc text v ↔ Lang lib setup.point setup.limit c text v))

end Accepts

end cson
