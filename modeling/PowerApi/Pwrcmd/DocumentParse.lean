import PowerApi.Cson.Legible
import PowerApi.Pwrcmd.DocumentRuns

open cson

namespace pwrapi.pwrcmd

variable {D : Type} (lib : Doubles D)

/-! Documents that are read back -/

/-- What the call puts into a document is printed and read as it is. -/
def Call.Clean : Call D → Prop
  | .print func line errcode text => IsText (cson_new_string ((Output.message func line errcode text).take (MAX_MSG_STR - 1)))
  | call => ∀ member ∈ call.member lib, IsText member.1 ∧ member.2.1.value.Clean lib

/-- A member that is printed and read as it is. -/
structure CleanMember (member : Bytes × Entry D) : Prop where
  key : IsText member.1
  value : member.2.value.Clean lib

def Session.Clean (s : Session D) : Prop := ∀ d, s.document = some d → ∀ member ∈ d.members, CleanMember lib member

variable {lib} {members : List (Bytes × Entry D)} {key : Bytes} {s s' : Session D} {call : Call D} {d : Document D}

theorem forall_put {P : Bytes × Entry D → Prop} {f : Option (Entry D) → Entry D} (hmembers : ∀ member ∈ members, P member)
    (hnone : P (key, f none)) (hsome : ∀ entry, P (key, entry) → P (key, f (some entry))) : ∀ member ∈ put key f members, P member := by
  induction members with
  | nil =>
    rw [put, List.forall_mem_singleton]
    exact hnone
  | cons member members ih =>
    rw [List.forall_mem_cons] at hmembers
    rw [put]
    split
    · next heq =>
      rw [List.forall_mem_cons]
      exact ⟨hsome member.2 (heq ▸ hmembers.1), hmembers.2⟩
    · rw [List.forall_mem_cons]
      exact ⟨hmembers.1, ih hmembers.2⟩

theorem clean_list_iff {list : List (Value Bytes D)} : clean_list lib list ↔ ∀ v ∈ list, v.Clean lib := by
  induction list with
  | nil => exact iff_of_true trivial (List.forall_mem_nil _)
  | cons v list ih => rw [clean_list, List.forall_mem_cons, ih]

theorem clean_members_of_forall (hmembers : ∀ member ∈ members, CleanMember lib member) :
    clean_members lib (members.map fun member => (member.1, member.2.value)) := by
  induction members with
  | nil => trivial
  | cons member members ih =>
    rw [List.forall_mem_cons] at hmembers
    exact ⟨hmembers.1.key, hmembers.1.value, ih hmembers.2⟩

theorem nesting_texts (list : List Bytes) : nesting_list (list.map (Value.string : Bytes → Value Bytes D)) = 0 := by
  induction list with
  | nil => rfl
  | cons s list ih =>
    rw [List.map_cons, nesting_list, ih]
    rfl

/-- Only messages are a container. -/
theorem Entry.nesting_le (entry : Entry D) : entry.value.nesting ≤ 1 := by
  cases entry with
  | messages list =>
    rw [value, Value.nesting, nesting_texts]
  | _ => exact Nat.zero_le _

theorem nesting_members_le : nesting_members (members.map fun member => (member.1, member.2.value)) ≤ 1 := by
  induction members with
  | nil => exact Nat.zero_le _
  | cons member members ih =>
    rw [List.map_cons, nesting_members]
    exact max_le member.2.nesting_le ih

/-- Printable ASCII characters are a text. -/
theorem is_text_ascii {s : Bytes} (hall : s.all (fun b => 0 < b.toNat && b.toNat < 0x80 && printable b) = true) : IsText s := by
  refine ⟨s.map UInt8.toNat, fun uc huc => ?_, ?_⟩
  · obtain ⟨b, hb, rfl⟩ := List.mem_map.mp huc
    have hbyte := List.all_eq_true.mp hall b hb
    rw [Bool.and_eq_true, Bool.and_eq_true, decide_eq_true_iff, decide_eq_true_iff] at hbyte
    refine ⟨hbyte.1.1, by omega, fun _ => ?_, by omega, by omega⟩
    rw [UInt8.ofNat_toNat]
    exact hbyte.2
  · induction s with
    | nil => rfl
    | cons b s ih =>
      rw [List.all_cons, Bool.and_eq_true, Bool.and_eq_true, Bool.and_eq_true, decide_eq_true_iff, decide_eq_true_iff] at hall
      rw [List.map_cons, List.flatMap_cons, ← ih hall.2, utf8_short hall.1.1.2, UInt8.ofNat_toNat]
      rfl

theorem is_text_reserved : ∀ key ∈ reserved, IsText key := by
  have hall : ∀ key ∈ reserved, key.all (fun b => 0 < b.toNat && b.toNat < 0x80 && printable b) = true := by decide
  exact fun key hkey => is_text_ascii (hall key hkey)

theorem mem_or_null {member : Bytes × Entry D} (hmember : member ∈ or_null key members) : member ∈ members ∨ member = (key, .null) := by
  rw [or_null] at hmember
  split at hmember
  · exact .inl hmember
  · exact (List.mem_append.mp hmember).imp id List.mem_singleton.mp

/-- What the flush adds is clean too. -/
theorem clean_complete (hmembers : ∀ member ∈ d.members, CleanMember lib member) : ∀ member ∈ d.complete, CleanMember lib member := by
  intro member hmember
  rcases mem_or_null hmember with hmember | rfl
  · rcases mem_or_null hmember with hmember | rfl
    · rcases List.mem_append.mp hmember with hmember | hmember
      · exact hmembers member hmember
      · rw [List.mem_singleton.mp hmember]
        exact ⟨is_text_reserved JSON_RET_CODE_STR (by decide), trivial⟩
    · exact ⟨is_text_reserved JSON_MSGS_STR (by decide), trivial⟩
  · exact ⟨is_text_reserved JSON_ERR_MSGS_STR (by decide), trivial⟩

theorem Session.Clean.of_none (hdocument : s.document = none) : s.Clean lib := fun d hd => by cases hdocument.symm.trans hd

theorem Session.begin_clean (s : Session D) : s.begin.Clean lib := fun d hd => by
  obtain rfl := Option.some.inj hd
  exact List.forall_mem_nil _

/-- A clean value with a name. -/
theorem Session.Clean.add (hclean : s.Clean lib) {name line : Bytes} {entry : Entry D} (hname : IsText name)
    (hentry : entry.value.Clean lib) : (s.add name entry line).Clean lib := by
  intro d hd
  rw [Session.add] at hd
  rcases hdocument : s.document with _ | d₀
  · rw [hdocument] at hd
    cases hd
  · rw [hdocument] at hd
    dsimp only at hd
    split at hd
    · exact hclean d hd
    · obtain rfl := Option.some.inj hd
      exact forall_put (hclean d₀ hdocument) ⟨hname, hentry⟩ fun _ _ => ⟨hname, hentry⟩

/-- The messages with one more are clean, whether there were some or not. -/
theorem clean_add_message {text : Bytes} (htext : IsText text) : (add_message text (none : Option (Entry D))).value.Clean lib ∧
    ∀ entry : Entry D, entry.value.Clean lib → (add_message text (some entry)).value.Clean lib := by
  have hone : (Entry.messages [text] : Entry D).value.Clean lib := by
    refine clean_list_iff.mpr ?_
    rw [List.map_singleton, List.forall_mem_singleton]
    exact htext
  refine ⟨hone, fun entry hentry => ?_⟩
  cases entry with
  | messages list =>
    refine clean_list_iff.mpr ?_
    rw [List.map_append, List.forall_mem_append, List.map_singleton, List.forall_mem_singleton]
    exact ⟨clean_list_iff.mp hentry, htext⟩
  | _ => exact hone

/-- A clean call keeps the document clean. -/
theorem Session.Clean.step (hclean : s.Clean lib) (hcall : call.Clean lib) (hstep : s.step lib call = some s') : s'.Clean lib := by
  cases call with
  | enable =>
    obtain rfl := Option.some.inj hstep
    exact s.begin_clean
  | disable =>
    obtain rfl := Option.some.inj hstep
    exact .of_none Session.close_document
  | set_ret_code ret_code =>
    rcases hdocument : s.document with _ | d
    · rw [Session.step, hdocument] at hstep
      obtain rfl := Option.some.inj hstep
      exact hclean
    · rw [Session.step, hdocument] at hstep
      obtain rfl := Option.some.inj hstep
      intro d' hd'
      obtain rfl := Option.some.inj hd'
      exact hclean d hdocument
  | flush force =>
    rcases hdocument : s.document with _ | d
    · rw [Session.step, hdocument] at hstep
      obtain rfl := Option.some.inj hstep
      exact hclean
    · rw [Session.step, hdocument] at hstep
      dsimp only at hstep
      split at hstep
      · obtain rfl := Option.some.inj hstep
        exact Session.begin_clean _
      · obtain rfl := Option.some.inj hstep
        exact hclean
  | print func line errcode text =>
    rcases hdocument : s.document with _ | d
    · rw [Session.step, hdocument] at hstep
      obtain rfl := Option.some.inj hstep
      exact .of_none rfl
    · rw [Session.step, hdocument] at hstep
      dsimp only at hstep
      split at hstep
      · cases hstep
      · obtain rfl := Option.some.inj hstep
        intro d' hd'
        obtain rfl := Option.some.inj hd'
        have hkey : IsText (messages_key (decide (errcode ≠ 0))) := is_text_reserved _ messages_key_mem
        obtain ⟨hfirst, hnext⟩ := @clean_add_message D lib _ hcall
        exact forall_put (hclean d hdocument) ⟨hkey, hfirst⟩ fun entry hentry => ⟨hkey, hnext entry hentry.value⟩
  | add_null name =>
    obtain rfl := Option.some.inj hstep
    obtain ⟨hname, hentry⟩ := hcall _ rfl
    exact hclean.add hname hentry
  | add_integer name value =>
    obtain rfl := Option.some.inj hstep
    obtain ⟨hname, hentry⟩ := hcall _ rfl
    exact hclean.add hname hentry
  | add_double name value text =>
    obtain rfl := Option.some.inj hstep
    obtain ⟨hname, hentry⟩ := hcall _ rfl
    exact hclean.add hname hentry
  | add_string name string =>
    obtain rfl := Option.some.inj hstep
    obtain ⟨hname, hentry⟩ := hcall _ rfl
    exact hclean.add hname hentry

theorem Session.Clean.run {calls : List (Call D)} (hclean : s.Clean lib) (hcalls : ∀ call ∈ calls, call.Clean lib)
    (hrun : calls.foldlM (fun s call => s.step lib call) s = some s') : s'.Clean lib := by
  induction calls generalizing s with
  | nil =>
    obtain rfl := Option.some.inj hrun
    exact hclean
  | cons call calls ih =>
    rw [List.forall_mem_cons] at hcalls
    rw [List.foldlM_cons] at hrun
    obtain ⟨next, hstep, hrun⟩ := Option.bind_eq_some_iff.mp hrun
    exact ih (hclean.step hcalls.1 hstep) hcalls.2 hrun

/-- After any run, what a flush prints is read back as the document. -/
theorem json_flush_parse {opt : ParseOpt} (hcomments : opt.allowComments = false) (hnesting : 2 ≤ opt.nesting) {calls : List (Call D)}
    (hplain : ∀ call ∈ calls, call.Plain lib) (hclean : ∀ call ∈ calls, call.Clean lib) {o : Output D}
    (hrun : Output.run lib calls = some o) {force : Bool} (henabled : o.json_is_enabled) (hforce : force || 0 < o.num_objects) :
    ∃ s d o' text heap root, Session.run lib calls = some s ∧ s.document = some d ∧ o.json_flush_output lib force = some o' ∧
      o'.printed = o.printed ++ [.document (.ok text)] ∧ cson_parse lib 0x2E opt text = .value heap root ∧
      Stored heap heap.length root d.value := by
  have hmatches := run_matches hplain
  rw [hrun] at hmatches
  generalize hsession : Session.run lib calls = result at hmatches
  cases hmatches with
  | @some _ s hsound =>
    obtain ⟨kvp, hsound⟩ := hsound
    have hkept : s.Clean lib := Session.Clean.run (.of_none rfl) hclean hsession
    rcases hdocument : s.document with _ | d
    · rw [Output.json_is_enabled, hsound.cout_none hdocument] at henabled
      cases henabled
    · obtain ⟨o', hflush, hsound'⟩ := hsound.flush lib hdocument (hsound.num_objects hdocument ▸ hforce)
      have hvalue : d.value.Clean lib := clean_members_of_forall (clean_complete (hkept d hdocument))
      have hflat : d.value.nesting ≤ 2 := Nat.succ_le_succ nesting_members_le
      obtain ⟨body, heap, root, hbody, hparse, hstored⟩ :=
        hvalue.printed_parsed Output.opts hcomments rfl (hflat.trans (by decide)) (hflat.trans hnesting)
      refine ⟨s, d, o', body ++ [0x0A], heap, root, rfl, hdocument, hflush, ?_, hparse, hstored⟩
      rw [hsound'.printed, Session.begin_of_some hdocument, hsound.printed, hbody]
      rfl

/-- A number with the name `n` -/
theorem json_flush_parse_number : ∃ o o' text heap root,
    Output.run no_doubles [.enable, .add_integer [0x6E] 5] = some o ∧ o.json_flush_output no_doubles false = some o' ∧
      o'.printed = [.document (.ok text)] ∧ cson_parse no_doubles 0x2E cson_parse_opt_empty text = .value heap root ∧
      Stored heap heap.length root (.object [([0x6E], .integer 5), (JSON_RET_CODE_STR, .integer 0), (JSON_MSGS_STR, .null),
        (JSON_ERR_MSGS_STR, .null)]) := by
  have hplain : ∀ call ∈ ([.enable, .add_integer [0x6E] 5] : List (Call Unit)), call.Plain no_doubles := by
    simp only [List.forall_mem_cons, Call.Plain, Call.member]
    simp [reserved, JSON_RET_CODE_STR, JSON_MSGS_STR, JSON_ERR_MSGS_STR, bytes]
  have hclean : ∀ call ∈ ([.enable, .add_integer [0x6E] 5] : List (Call Unit)), call.Clean no_doubles := by
    simp only [List.forall_mem_cons, Call.Clean, Call.member]
    refine ⟨fun member hmember => (Option.not_mem_none member hmember).elim, ?_, List.forall_mem_nil _⟩
    intro member hmember
    obtain rfl := Option.some.inj hmember
    exact ⟨is_text_ascii (by decide), trivial⟩
  obtain ⟨s, d, o', text, heap, root, hsession, hdocument, hflush, hprinted, hparse, hstored⟩ :=
    @json_flush_parse Unit no_doubles cson_parse_opt_empty rfl (by decide) _ hplain hclean _ rfl false rfl rfl
  obtain rfl := Option.some.inj hsession
  obtain rfl := Option.some.inj hdocument
  exact ⟨_, o', text, heap, root, rfl, hflush, hprinted, hparse, hstored⟩

end pwrapi.pwrcmd
