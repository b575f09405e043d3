import PowerApi.Cson.Reread

namespace cson

section Tokens

variable {S D : Type}

theorem array_tokens (list : List (Value S D)) : (Value.array list).tokens = .LSQRB :: ((following list).tail ++ [.RSQRB]) := by
  cases list <;> simp [Value.tokens, following]

theorem object_tokens (kvp : List (S × Value S D)) :
    (Value.object kvp).tokens = .LCURB :: ((following_members kvp).tail ++ [.RCURB]) := by
  cases kvp <;> simp [Value.tokens, following_members]

/-- The elements, between their commas. -/
theorem following_tail (v w : Value S D) (list : List (Value S D)) :
    (following (v :: w :: list)).tail = v.tokens ++ .COMMA :: (following (w :: list)).tail := by
  simp [following]

theorem following_members_tail (k k' : S) (v w : Value S D) (kvp : List (S × Value S D)) :
    (following_members ((k, v) :: (k', w) :: kvp)).tail =
      .STRING k :: .COLON :: (v.tokens ++ .COMMA :: (following_members ((k', w) :: kvp)).tail) := by
  simp [following_members]

end Tokens

section Prints

variable {D : Type} {lib : Doubles D} {tokens tokens' : List (Token Bytes D)} {token : Token Bytes D} {p q : Prop} {text text' : Bytes}

theorem Spells.blanks {point : UInt8} {blanks : Bytes} (hblanks : ∀ b ∈ blanks, is_blank b = true) (h : Spells lib point tokens text) :
    Spells lib point tokens (blanks ++ text) := by
  induction blanks with
  | nil => exact h
  | cons b blanks ih =>
    obtain ⟨hb, hall⟩ := List.forall_mem_cons.mp hblanks
    exact .blank hb (ih hall)

theorem Spells.append {point : UInt8} (h : Spells lib point tokens text) (h' : Spells lib point tokens' text') :
    Spells lib point (tokens ++ tokens') (text ++ text') := by
  induction h with
  | nil => exact h'
  | blank hb _ ih => exact .blank hb ih
  | token htoken _ ih =>
    rw [List.append_assoc]
    exact .token htoken ih

/-- A text spells the tokens, if they can be read, and else there is a byte in it that is in no text. -/
structure Prints (lib : Doubles D) (tokens : List (Token Bytes D)) (quotable : Prop) (text : Bytes) : Prop where
  spells : quotable → Spells lib 0x2E tokens text
  rejects : ¬ quotable → ∃ b ∈ text, char_class b = none

theorem Prints.append (h : Prints lib tokens p text) (h' : Prints lib tokens' q text') :
    Prints lib (tokens ++ tokens') (p ∧ q) (text ++ text') := by
  refine ⟨fun ⟨hp, hq⟩ => (h.spells hp).append (h'.spells hq), fun hnot => ?_⟩
  by_cases hp : p
  · obtain ⟨b, hb, hclass⟩ := h'.rejects fun hq => hnot ⟨hp, hq⟩
    exact ⟨b, List.mem_append_right _ hb, hclass⟩
  · obtain ⟨b, hb, hclass⟩ := h.rejects hp
    exact ⟨b, List.mem_append_left _ hb, hclass⟩

theorem Prints.blanks {blanks : Bytes} (hblanks : ∀ b ∈ blanks, is_blank b = true) (h : Prints lib tokens p text) :
    Prints lib tokens p (blanks ++ text) := by
  refine ⟨fun hp => (h.spells hp).blanks hblanks, fun hnot => ?_⟩
  obtain ⟨b, hb, hclass⟩ := h.rejects hnot
  exact ⟨b, List.mem_append_right _ hb, hclass⟩

theorem Prints.of_spell (h : Spell lib 0x2E token text) : Prints lib [token] True text := by
  refine ⟨fun _ => ?_, fun hnot => (hnot trivial).elim⟩
  have hspells := Spells.token h .nil
  rwa [List.append_nil] at hspells

theorem Prints.congr (h : Prints lib tokens p text) (hiff : p ↔ q) : Prints lib tokens q text :=
  ⟨fun hq => h.spells (hiff.mpr hq), fun hnot => h.rejects fun hp => hnot (hiff.mp hp)⟩

/-- A token before the text. -/
theorem Prints.cons (hspell : Spell lib 0x2E token text) (h : Prints lib tokens p text') :
    Prints lib (token :: tokens) p (text ++ text') :=
  (Prints.append (.of_spell hspell) h).congr (iff_of_eq (true_and _))

theorem Prints.string {esc : Bool} {s : Bytes} (hprint : cson_str_to_json esc s = .ok text) :
    Prints lib [.STRING (reread s)] (Quotable s) text := by
  obtain ⟨hread, hreject⟩ := @str_to_json_spec D lib 0x2E esc s text hprint
  exact ⟨fun hquotable => ((Prints.of_spell (hread hquotable)).spells trivial), hreject⟩

end Prints

section Output

variable {D : Type} {fmt : OutputOpt} {lib : Doubles D}

theorem indent_blank (depth : ℕ) : ∀ b ∈ cson_output_indent fmt.indentation depth, is_blank b = true := by
  intro b hb
  simp only [cson_output_indent] at hb
  split at hb
  · cases hb
  · rcases List.mem_cons.mp hb with rfl | hb
    · decide
    · rw [List.eq_of_mem_replicate hb]
      split <;> decide

/-- A container is printed between its brackets, with white space within them. -/
theorem container_spec {level : ℕ} {first last : UInt8} {items : List (Except Stop Bytes)} {text : Bytes}
    (hprint : cson_output_container fmt level first last items = .ok text) :
    ∃ inner outer body, (∀ b ∈ inner, is_blank b = true) ∧ (∀ b ∈ outer, is_blank b = true) ∧
      separated (0x2C :: inner) items = .ok body ∧ text = [first] ++ (inner ++ (body ++ (outer ++ [last]))) := by
  simp only [cson_output_container] at hprint
  split at hprint
  · cases hprint
  split at hprint
  · next hempty =>
    obtain rfl := List.isEmpty_iff.mp hempty
    obtain rfl := Except.ok.inj hprint
    exact ⟨[], [], [], by simp, by simp, rfl, rfl⟩
  · obtain ⟨body, hbody, hprint⟩ := bind_ok hprint
    obtain rfl := Except.ok.inj hprint
    refine ⟨_, _, body, ?_, ?_, hbody, rfl⟩
    · intro b hb
      split at hb
      · exact indent_blank _ b hb
      · cases hb
    · intro b hb
      split at hb
      · exact indent_blank _ b hb
      · cases hb

/-- The items of a container, in their brackets. -/
theorem Prints.container {level : ℕ} {first last : UInt8} {items : List (Except Stop Bytes)} {text : Bytes} {p : Prop}
    {opening closing : Token Bytes D} {tokens : List (Token Bytes D)} (hfirst : Spell lib 0x2E opening [first])
    (hlast : Spell lib 0x2E closing [last])
    (hitems : ∀ inner body, (∀ b ∈ inner, is_blank b = true) → separated (0x2C :: inner) items = .ok body → Prints lib tokens p body)
    (hprint : cson_output_container fmt level first last items = .ok text) : Prints lib (opening :: (tokens ++ [closing])) p text := by
  obtain ⟨inner, outer, body, hinner, houter, hbody, rfl⟩ := container_spec hprint
  have hclosing : Prints lib [closing] True (outer ++ [last]) := (Prints.of_spell hlast).blanks houter
  have hbody := ((hitems inner body hinner hbody).append hclosing).congr (iff_of_eq (and_true p))
  exact .cons hfirst (hbody.blanks hinner)

theorem member_spec {key text : Bytes} {value : Except Stop Bytes} (hprint : cson_output_member fmt key value = .ok text) :
    ∃ key' blanks text', cson_str_to_json fmt.escapeForwardSlashes key = .ok key' ∧ (∀ b ∈ blanks, is_blank b = true) ∧
      value = .ok text' ∧ text = key' ++ ([0x3A] ++ (blanks ++ text')) := by
  obtain ⟨key', hkey, hprint⟩ := bind_ok hprint
  obtain ⟨text', hvalue, hprint⟩ := bind_ok hprint
  obtain rfl := Except.ok.inj hprint
  refine ⟨key', if fmt.addSpaceAfterColon then [0x20] else [], text', hkey, ?_, hvalue, ?_⟩
  · intro b hb
    split at hb
    · rw [List.mem_singleton.mp hb]
      decide
    · cases hb
  · split <;> rfl

mutual

/-- What is printed of a value spells out the tokens of the value that is read back. -/
theorem Value.prints : (v : Value Bytes D) → v.Finite lib → {level : ℕ} → {text : Bytes} → v.output fmt lib level = .ok text →
    Prints lib (v.reread lib).tokens v.Quotable text
  | .null, _, _, _, hprint => by
    obtain rfl := Except.ok.inj hprint
    exact .of_spell .NULL
  | .bool b, _, _, _, hprint => by
    obtain rfl := Except.ok.inj hprint
    cases b
    · exact .of_spell .FALSE
    · exact .of_spell .TRUE
  | .integer n, _, _, _, hprint => by
    obtain rfl := Except.ok.inj hprint
    exact .of_spell (output_integer_spec n)
  | .double d, hfixed, _, _, hprint => .of_spell (output_double_spec hfixed hprint)
  | .string s, _, _, _, hprint => .string hprint
  | .array list, hfinite, level, _, hprint => by
    rw [Value.reread, array_tokens]
    exact .container .LSQRB .RSQRB (fun inner body hinner hbody => prints_list list hfinite hinner hbody) hprint
  | .object kvp, hfinite, level, _, hprint => by
    rw [Value.reread, object_tokens]
    exact .container .LCURB .RCURB (fun inner body hinner hbody => prints_members kvp hfinite hinner hbody) hprint

theorem prints_list : (list : List (Value Bytes D)) → finite_list lib list → {level : ℕ} → {inner body : Bytes} →
    (∀ b ∈ inner, is_blank b = true) → separated (0x2C :: inner) (output_list fmt lib level list) = .ok body →
    Prints lib (following (reread_list lib list)).tail (quotable_list list) body
  | [], _, _, _, _, _, hbody => by
    obtain rfl := Except.ok.inj hbody
    exact ⟨fun _ => .nil, fun hnot => (hnot trivial).elim⟩
  | [v], ⟨hv, _⟩, level, _, body, _, hbody => by
    have hprints := Value.prints v hv hbody
    simp only [reread_list, following, List.append_nil, List.tail_cons]
    exact hprints.congr (iff_of_eq (and_true _)).symm
  | v :: w :: list, ⟨hv, hlist⟩, level, inner, body, hinner, hbody => by
    obtain ⟨text, htext, hbody⟩ := bind_ok hbody
    obtain ⟨rest, hrest, hbody⟩ := bind_ok hbody
    obtain rfl := Except.ok.inj hbody
    rw [reread_list, reread_list, following_tail]
    have hfollowing := Prints.cons .COMMA ((prints_list (w :: list) hlist hinner hrest).blanks hinner)
    exact (Value.prints v hv htext).append hfollowing

theorem prints_members : (kvp : List (Bytes × Value Bytes D)) → finite_members lib kvp → {level : ℕ} → {inner body : Bytes} →
    (∀ b ∈ inner, is_blank b = true) → separated (0x2C :: inner) (output_members fmt lib level kvp) = .ok body →
    Prints lib (following_members (reread_members lib kvp)).tail (quotable_members kvp) body
  | [], _, _, _, _, _, hbody => by
    obtain rfl := Except.ok.inj hbody
    exact ⟨fun _ => .nil, fun hnot => (hnot trivial).elim⟩
  | [(k, v)], ⟨hv, _⟩, level, _, body, _, hbody => by
    obtain ⟨key, blanks, text, hkey, hblanks, htext, rfl⟩ := member_spec hbody
    have hprints := (Prints.string hkey).append (.cons .COLON ((Value.prints v hv htext).blanks hblanks))
    simp only [reread_members, following_members, List.append_nil, List.tail_cons]
    exact hprints.congr (and_congr_right' (iff_of_eq (and_true _)).symm)
  | (k, v) :: (k', w) :: kvp, ⟨hv, hkvp⟩, level, inner, body, hinner, hbody => by
    obtain ⟨member, hmember, hbody⟩ := bind_ok hbody
    obtain ⟨rest, hrest, hbody⟩ := bind_ok hbody
    obtain rfl := Except.ok.inj hbody
    obtain ⟨key, blanks, text, hkey, hblanks, htext, rfl⟩ := member_spec hmember
    have hprints := (Prints.string hkey).append (.cons .COLON ((Value.prints v hv htext).blanks hblanks))
    have hfollowing := Prints.cons .COMMA ((prints_members ((k', w) :: kvp) hkvp hinner hrest).blanks hinner)
    rw [reread_members, reread_members, following_members_tail]
    have hboth := (hprints.append hfollowing).congr and_assoc
    simpa [reread_members, quotable_members] using hboth

end

end Output

/-! Reading back what has been printed -/

section RoundTrip

variable {D : Type} {lib : Doubles D} {v w : Value Bytes D} {text : Bytes}

/-- A parser for containers nested as deep as the number says. -/
def parser_of_depth (point : UInt8) (depth : ℕ) : Parser D :=
  { JSON_parser_new point cson_parse_opt_empty with depth, stack_capacity := depth, stack_size := depth + 1 }

/-- One array or object at most is spelled out by a text. -/
theorem Spells.container_unique {point : UInt8} (h : Spells lib point v.tokens text) (hv : v.is_container)
    (h' : Spells lib point w.tokens text) (hw : w.is_container) : v = w := by
  let setup : Setup := ⟨v.nesting + w.nesting, v.nesting + w.nesting + 1, Nat.succ_pos _, point, false⟩
  have hbetween : Between setup (parser_of_depth point (v.nesting + w.nesting) : Parser D) Config.initial := by
    refine ⟨⟨Config.wellFormed_initial _, builds_initial, rfl, ⟨rfl, rfl, rfl, rfl, rfl⟩⟩, ⟨rfl, rfl, ?_⟩, rfl, rfl, rfl, rfl⟩
    show 0 < JSON_PARSER_PARSE_BUFFER_SIZE
    decide
  have hlimit : setup.limit = v.nesting + w.nesting := by simp [setup, Setup.limit]
  obtain ⟨jc, r, hrun, hroot, hstored⟩ := (hbetween.accepts_initial rfl).mpr ⟨hv, by omega, h⟩
  obtain ⟨jc', r', hrun', hroot', hstored'⟩ := (hbetween.accepts_initial rfl).mpr ⟨hw, by omega, h'⟩
  obtain rfl := Except.ok.inj (hrun.symm.trans hrun')
  obtain rfl := Option.some.inj (hroot.symm.trans hroot')
  exact Stored.unique v w hstored hstored'

/-- After white space, a text begins with a byte of its first token. -/
theorem Spells.first_token {point : UInt8} {token : Token Bytes D} {tokens : List (Token Bytes D)}
    (h : Spells lib point (token :: tokens) text) :
    ∃ b cls, (text.dropWhile is_blank).head? = some b ∧ char_class b = some cls ∧ First token cls := by
  generalize hall : token :: tokens = all at h
  induction h with
  | nil => cases hall
  | blank hb _ ih =>
    rw [List.dropWhile_cons_of_pos hb]
    exact ih hall
  | token htoken _ _ =>
    obtain ⟨rfl, -⟩ := List.cons.inj hall
    obtain ⟨b, rest, cls, rfl, hclass, hfirst⟩ := htoken.first
    obtain ⟨b', rest', heq, hblank⟩ := htoken.exists_cons
    obtain ⟨rfl, -⟩ := List.cons.inj heq
    refine ⟨b, cls, ?_, hclass, hfirst⟩
    rw [List.cons_append, List.dropWhile_cons_of_neg (by simp [hblank])]
    rfl

/-- A text that spells out a container spells out no other value. -/
theorem Spells.container_of_container {point : UInt8} (h : Spells lib point v.tokens text) (hw : w.is_container)
    (h' : Spells lib point w.tokens text) : v.is_container := by
  have hopening : ∃ tokens, w.tokens = .LCURB :: tokens ∨ w.tokens = .LSQRB :: tokens := by
    cases w with
    | array list => exact ⟨_, .inr (array_tokens list)⟩
    | object kvp => exact ⟨_, .inl (object_tokens kvp)⟩
    | _ => cases hw
  obtain ⟨tokens, hopening⟩ := hopening
  obtain ⟨b, cls, hhead, hclass, hfirst⟩ : ∃ b cls, (text.dropWhile is_blank).head? = some b ∧ char_class b = some cls ∧
      (cls = .LCURB ∨ cls = .LSQRB) := by
    rcases hopening with htokens | htokens <;> rw [htokens] at h' <;> obtain ⟨b, cls, hhead, hclass, hfirst⟩ := h'.first_token
    · exact ⟨b, cls, hhead, hclass, .inl hfirst⟩
    · exact ⟨b, cls, hhead, hclass, .inr hfirst⟩
  have hnot : ∀ token : Token Bytes D, v.tokens = [token] → ¬ (First token .LCURB ∨ First token .LSQRB) → False := by
    intro token htokens hne
    rw [htokens] at h
    obtain ⟨b', cls', hhead', hclass', hfirst'⟩ := h.first_token
    obtain rfl := Option.some.inj (hhead.symm.trans hhead')
    obtain rfl := Option.some.inj (hclass.symm.trans hclass')
    rcases hfirst with rfl | rfl
    · exact hne (.inl hfirst')
    · exact hne (.inr hfirst')
  cases v with
  | array => rfl
  | object => rfl
  | bool b => exact (hnot _ rfl (by cases b <;> simp [First])).elim
  | _ => exact (hnot _ rfl (by simp [First])).elim

/-- A byte that is in no text. -/
theorem not_accepts_of_none {jc : Parser D} (h : ∃ b ∈ text, char_class b = none) : ¬ Accepts lib jc text v := by
  obtain ⟨b, hb, hclass⟩ := h
  induction text generalizing jc with
  | nil => cases hb
  | cons b' text ih =>
    cases hchar : JSON_parser_char lib jc b' with
    | error stop => exact not_accepts_cons hchar
    | ok jc' =>
      rw [accepts_cons hchar]
      rcases List.mem_cons.mp hb with rfl | hb
      · obtain ⟨_, _, hreject⟩ := @char_none D lib jc b hclass
        cases hchar.symm.trans hreject
      · exact ih hb

mutual

theorem Value.reread_nesting : (v : Value Bytes D) → (v.reread lib).nesting = v.nesting
  | .null | .bool _ | .integer _ | .double _ | .string _ => rfl
  | .array list => congrArg (· + 1) (reread_list_nesting list)
  | .object kvp => congrArg (· + 1) (reread_members_nesting kvp)

theorem reread_list_nesting : (list : List (Value Bytes D)) → nesting_list (reread_list lib list) = nesting_list list
  | [] => rfl
  | v :: list => by rw [reread_list, nesting_list, nesting_list, Value.reread_nesting v, reread_list_nesting list]

theorem reread_members_nesting : (kvp : List (Bytes × Value Bytes D)) →
    nesting_members (reread_members lib kvp) = nesting_members kvp
  | [] => rfl
  | (_, v) :: kvp => by
    rw [reread_members, nesting_members, nesting_members, Value.reread_nesting v, reread_members_nesting kvp]

end

theorem Value.reread_is_container (v : Value Bytes D) : (v.reread lib).is_container = v.is_container := by
  cases v <;> rfl

theorem cson_output_eq {fmt : OutputOpt} {heap : Heap Bytes D} {src : Ref} (hdenotes : Denotes heap src v) :
    cson_output fmt lib heap src = do return (← v.output fmt lib 0) ++ (if fmt.addNewline then [0x0A] else []) := by
  rw [cson_output, hdenotes.output v (by omega) (by omega)]

/-- The parser and what has been printed, with or without the line feed. -/
theorem accepts_printed {fmt : OutputOpt} {opt : ParseOpt} (hcomments : opt.allowComments = false) (hfinite : v.Finite lib)
    (hprint : v.output fmt lib 0 = .ok text) :
    Accepts lib (JSON_parser_new 0x2E opt) (text ++ (if fmt.addNewline then [0x0A] else [])) w ↔
      v.is_container ∧ v.nesting ≤ opt.nesting ∧ v.Quotable ∧ w = v.reread lib := by
  have hnewline : Prints lib [] True (if fmt.addNewline then [0x0A] else []) := by
    refine ⟨fun _ => ?_, fun hnot => (hnot trivial).elim⟩
    split
    · exact .blank (by decide) .nil
    · exact .nil
  have hprints := ((Value.prints v hfinite hprint).append hnewline).congr (iff_of_eq (and_true _))
  rw [List.append_nil] at hprints
  by_cases hquotable : v.Quotable
  · have hspells := hprints.spells hquotable
    rw [(between_new 0x2E opt).accepts_initial hcomments, limit_setup]
    constructor
    · rintro ⟨hw, hnesting, hspells'⟩
      have hv := hspells.container_of_container hw hspells'
      obtain rfl := hspells.container_unique hv hspells' hw
      rw [Value.reread_nesting] at hnesting
      rw [Value.reread_is_container] at hv
      exact ⟨hv, hnesting, hquotable, rfl⟩
    · rintro ⟨hv, hnesting, -, rfl⟩
      rw [Value.reread_nesting, Value.reread_is_container]
      exact ⟨hv, hnesting, hspells⟩
  · exact iff_of_false (not_accepts_of_none (hprints.rejects hquotable)) fun h => hquotable h.2.2.1

/-- What has been printed is parsed exactly if it is a container, nested not too deep for the parser, without a
string that has a control character which has no escape sequence of one letter. Strings and floating point numbers are
not always read back as they were. -/
theorem cson_output_parse {fmt : OutputOpt} {opt : ParseOpt} (hcomments : opt.allowComments = false) {heap : Heap Bytes D}
    {src : Ref} (hdenotes : Denotes heap src v) (hfinite : v.Finite lib) (hprint : cson_output fmt lib heap src = .ok text) :
    (∃ heap' root, cson_parse lib 0x2E opt text = .value heap' root ∧ Stored heap' heap'.length root w) ↔
      v.is_container ∧ v.nesting ≤ opt.nesting ∧ v.Quotable ∧ w = v.reread lib := by
  rw [cson_output_eq hdenotes] at hprint
  obtain ⟨body, hbody, hprint⟩ := bind_ok hprint
  obtain rfl := Except.ok.inj hprint
  rw [parsed_iff_accepts, accepts_printed hcomments hfinite hbody]

/-- The string is one half of a surrogate pair, which is printed as the replacement character. -/
theorem cson_output_parse_surrogate : ∃ heap root,
    cson_parse no_doubles 0x2E cson_parse_opt_empty (bytes ['[', '"', '\\', 'u', 'f', 'f', 'f', 'd', '"', ']']) = .value heap root ∧
      Stored heap heap.length root (.array [.string [0xEF, 0xBF, 0xBD]]) := by
  have hquotable : cson.Quotable [0xED, 0xA0, 0x80] := by
    unfold cson.Quotable
    decide +kernel
  have hdenotes : Denotes [.ARRAY [1], .STRING [0xED, 0xA0, 0x80]] 0 (.array [.string [0xED, 0xA0, 0x80]] : Value Bytes Unit) :=
    ⟨[1], rfl, rfl, trivial⟩
  exact (@cson_output_parse Unit no_doubles _ _ _ cson_output_opt_empty cson_parse_opt_empty rfl _ _ hdenotes
    ⟨trivial, trivial⟩ rfl).mpr ⟨rfl, by decide, ⟨hquotable, trivial⟩, rfl⟩

end RoundTrip

end cson
