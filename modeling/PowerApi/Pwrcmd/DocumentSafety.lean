import PowerApi.Cson.Accepts
import PowerApi.Pwrcmd.DocumentRuns

open cson

namespace pwrapi.pwrcmd

variable {D : Type}

/-! What the calls alone say about the pointers to messages -/

/-- The kind of message that a call prints. -/
def Call.prints : Call D → Option Bool
  | .print _ _ errcode _ => some (errcode ≠ 0)
  | _ => none

/-- The calls that may give up a document. -/
def Call.resets : Call D → Bool
  | .enable | .disable | .flush _ => true
  | _ => false

def Call.enables (on : Bool) : Call D → Bool
  | .enable => true
  | .disable => false
  | _ => on

/-- Whether there is a document after the calls. -/
def enabled (calls : List (Call D)) : Bool := calls.foldl Call.enables false

/-- A message of the kind was put into a document, and there was a reset since then, or there was none. -/
def Spoken (err : Bool) (calls : List (Call D)) (reset : Bool) : Prop :=
  ∃ before first between, calls = before ++ first :: between ∧ first.prints = some err ∧ enabled before = true ∧
    between.any Call.resets = reset

/-- Two messages of one kind are put into two documents. -/
def Reuses (calls : List (Call D)) : Prop :=
  ∃ before first between second after err, calls = before ++ first :: between ++ second :: after ∧
    first.prints = some err ∧ second.prints = some err ∧ enabled before = true ∧ enabled (before ++ first :: between) = true ∧
    between.any Call.resets = true

section Calls

variable {calls : List (Call D)} {call : Call D} {err reset : Bool}

theorem enabled_snoc : enabled (calls ++ [call]) = call.enables (enabled calls) := by
  rw [enabled, List.foldl_append]
  rfl

/-- The message is the last call, or it is one of those before. -/
theorem Spoken.snoc : Spoken err (calls ++ [call]) reset ↔
    call.prints = some err ∧ enabled calls = true ∧ reset = false ∨ ∃ since, Spoken err calls since ∧ reset = (since || call.resets) := by
  constructor
  · rintro ⟨before, first, between, hcalls, hprints, hon, hreset⟩
    rcases List.eq_nil_or_concat between with rfl | ⟨between, last, rfl⟩
    · obtain ⟨rfl, hlast⟩ := List.append_inj' hcalls rfl
      obtain rfl := List.singleton_inj.mp hlast
      exact .inl ⟨hprints, hon, hreset.symm⟩
    · rw [List.concat_eq_append, ← List.cons_append, ← List.append_assoc] at hcalls
      obtain ⟨rfl, hlast⟩ := List.append_inj' hcalls rfl
      obtain rfl := List.singleton_inj.mp hlast
      refine .inr ⟨_, ⟨before, first, between, rfl, hprints, hon, rfl⟩, ?_⟩
      rw [← hreset, List.concat_eq_append, List.any_append, List.any_cons, List.any_nil, Bool.or_false]
  · rintro (⟨hprints, hon, rfl⟩ | ⟨since, ⟨before, first, between, rfl, hprints, hon, rfl⟩, rfl⟩)
    · exact ⟨calls, call, [], rfl, hprints, hon, rfl⟩
    · refine ⟨before, first, between ++ [call], ?_, hprints, hon, ?_⟩
      · rw [List.append_assoc, List.cons_append]
      · rw [List.any_append, List.any_cons, List.any_nil, Bool.or_false]

end Calls

/-! What the calls say about a session -/

/-- The document has messages of the kind. -/
def Session.has (s : Session D) (err : Bool) : Bool :=
  s.document.any fun d => d.members.any fun member => member.1 = messages_key err

/-- The session is as the calls before say. -/
structure Follows (calls : List (Call D)) (s : Session D) : Prop where
  on : s.document.isSome = enabled calls
  has : ∀ err, s.has err = true ↔ Spoken err calls false
  stale : ∀ err, s.stale err = true ↔ Spoken err calls true
  objects : ∀ err, s.has err = true → ∀ d, s.document = some d → 0 < d.objects

/-- What a call changes of that. -/
structure Moves (s : Session D) (call : Call D) (s' : Session D) : Prop where
  on : s'.document.isSome = call.enables s.document.isSome
  has : ∀ err, s'.has err = true ↔ call.prints = some err ∧ s.document.isSome = true ∨ s.has err = true ∧ call.resets = false
  stale : ∀ err, s'.stale err = true ↔ s.stale err = true ∨ s.has err = true ∧ call.resets = true
  objects : ∀ err, s'.has err = true → ∀ d, s'.document = some d → 0 < d.objects

section Sessions

variable {lib : Doubles D} {s s' : Session D} {calls : List (Call D)} {call : Call D} {d : Document D} {err : Bool}

theorem any_put {members : List (Bytes × Entry D)} {key k : Bytes} {f : Option (Entry D) → Entry D} :
    ((put key f members).any fun member => member.1 = k) = ((members.any fun member => member.1 = k) || decide (key = k)) := by
  induction members with
  | nil => rw [put, List.any_cons, List.any_nil, Bool.or_false, Bool.false_or]
  | cons member members ih =>
    rw [put]
    split
    · next heq =>
      rw [List.any_cons, List.any_cons, heq]
      cases decide (key = k) <;> simp
    · rw [List.any_cons, List.any_cons, ih, Bool.or_assoc]

theorem Session.has_of_none (hdocument : s.document = none) : s.has err = false := by
  rw [has, hdocument]
  rfl

theorem Session.has_of_some (hdocument : s.document = some d) :
    s.has err = d.members.any fun member => member.1 = messages_key err := by
  rw [has, hdocument]
  rfl

theorem Session.close_stale : s.close.stale err = (s.stale err || s.has err) := by
  rcases hdocument : s.document with _ | d
  · rw [close_of_none hdocument, has_of_none hdocument, Bool.or_false]
  · rw [close_of_some hdocument, has_of_some hdocument]

/-- The calls that leave the document and its messages alone. -/
theorem Moves.of_same (hfollows : ∀ err, s.has err = true → ∀ d, s.document = some d → 0 < d.objects)
    (hon : s'.document.isSome = s.document.isSome) (hhas : ∀ err, s'.has err = s.has err) (hstale : s'.stale = s.stale)
    (hobjects : ∀ d', s'.document = some d' → ∃ d, s.document = some d ∧ d.objects ≤ d'.objects)
    (henables : call.enables s.document.isSome = s.document.isSome) (hprints : call.prints = none) (hresets : call.resets = false) :
    Moves s call s' := by
  refine ⟨hon.trans henables.symm, fun err => ?_, fun err => ?_, fun err herr d' hd' => ?_⟩
  · rw [hhas, hprints, hresets]
    simp
  · rw [hstale, hresets]
    simp
  · obtain ⟨d, hd, hle⟩ := hobjects d' hd'
    exact (hfollows err (hhas err ▸ herr) d hd).trans_le hle

/-- The calls that give up the document. -/
theorem Moves.of_close (hhas : ∀ err, s'.has err = false) (hstale : ∀ err, s'.stale err = (s.stale err || s.has err))
    (hon : s'.document.isSome = call.enables s.document.isSome) (hprints : call.prints = none) (hresets : call.resets = true) :
    Moves s call s' := by
  refine ⟨hon, fun err => ?_, fun err => ?_, fun err herr => ?_⟩
  · rw [hhas, hprints, hresets]
    simp
  · rw [hstale, hresets]
    simp
  · rw [hhas] at herr
    cases herr

theorem Session.begin_stale : s.begin.stale err = (s.stale err || s.has err) := close_stale

/-- A value with a name is no message. -/
theorem Session.add_moves {name line : Bytes} {entry : Entry D} (hmember : call.member lib = some (name, entry, line))
    (hplain : call.Plain lib) (hobjects : ∀ err, s.has err = true → ∀ d, s.document = some d → 0 < d.objects)
    (henables : call.enables s.document.isSome = s.document.isSome) (hprints : call.prints = none) (hresets : call.resets = false) :
    Moves s call (s.add name entry line) := by
  have hkey : ∀ err, name ≠ messages_key err := fun err heq => hplain _ hmember (heq ▸ messages_key_mem)
  rcases hdocument : s.document with _ | d
  · have hadd : s.add name entry line = { s with printed := s.printed ++ [.line false line] } := by rw [add, hdocument]
    rw [hadd]
    exact .of_same hobjects rfl (fun _ => rfl) rfl (fun d' hd' => ⟨d', hd', le_rfl⟩) henables hprints hresets
  · by_cases hname : name = []
    · have hadd : s.add name entry line = s := by
        rw [add, hdocument]
        exact if_pos hname
      rw [hadd]
      exact .of_same hobjects rfl (fun _ => rfl) rfl (fun d' hd' => ⟨d', hd', le_rfl⟩) henables hprints hresets
    · have hadd : s.add name entry line =
          { s with document := some { d with members := put name (fun _ => entry) d.members, objects := d.objects + 1 } } := by
        rw [add, hdocument]
        exact if_neg hname
      rw [hadd]
      refine .of_same hobjects (by rw [hdocument]; rfl) (fun err => ?_) rfl (fun d' hd' => ?_) henables hprints hresets
      · rw [has_of_some rfl, has_of_some hdocument, any_put, decide_eq_false (hkey err), Bool.or_false]
      · obtain rfl := Option.some.inj hd'
        exact ⟨d, hdocument, Nat.le_succ _⟩

theorem Call.print_prints {func text : Bytes} {line : ℕ} {errcode : Int32} :
    (Call.print func line errcode text : Call D).prints = some (decide (errcode ≠ 0)) := rfl

theorem Call.print_resets {func text : Bytes} {line : ℕ} {errcode : Int32} :
    (Call.print func line errcode text : Call D).resets = false := rfl

theorem Session.print_moves {func : Bytes} {line : ℕ} {errcode : Int32} {text : Bytes}
    (hstep : s.step lib (.print func line errcode text) = some s') : Moves s (.print func line errcode text) s' := by
  rcases hdocument : s.document with _ | d
  · rw [step, hdocument] at hstep
    obtain rfl := Option.some.inj hstep
    refine ⟨by rw [hdocument]; rfl, fun err => ?_, fun err => ?_, fun err herr d hd => by cases hd⟩
    · rw [has_of_none rfl, has_of_none hdocument, hdocument]
      simp
    · rw [has_of_none hdocument]
      simp
  · rw [step, hdocument] at hstep
    dsimp only at hstep
    split at hstep
    · cases hstep
    · obtain rfl := Option.some.inj hstep
      refine ⟨by rw [hdocument]; rfl, fun err => ?_, fun err => ?_, fun err herr d' hd' => ?_⟩
      · rw [has_of_some rfl, has_of_some hdocument, any_put, hdocument, Bool.or_eq_true, decide_eq_true_iff,
          Call.print_prints, Option.some_inj, Call.print_resets, or_comm]
        refine or_congr ⟨fun heq => ⟨messages_key_inj heq, rfl⟩, fun heq => by rw [heq.1]⟩ ⟨fun htrue => ⟨htrue, rfl⟩, And.left⟩
      · rw [Call.print_resets]
        simp
      · obtain rfl := Option.some.inj hd'
        exact Nat.succ_pos _

theorem Session.step_moves (hplain : call.Plain lib) (hobjects : ∀ err, s.has err = true → ∀ d, s.document = some d → 0 < d.objects)
    (hstep : s.step lib call = some s') : Moves s call s' := by
  cases call with
  | enable =>
    obtain rfl := Option.some.inj hstep
    exact .of_close (fun _ => rfl) (fun _ => begin_stale) rfl rfl rfl
  | disable =>
    obtain rfl := Option.some.inj hstep
    exact .of_close (fun _ => has_of_none close_document) (fun _ => close_stale) (by rw [close_document]; rfl) rfl rfl
  | set_ret_code ret_code =>
    rcases hdocument : s.document with _ | d
    · rw [step, hdocument] at hstep
      obtain rfl := Option.some.inj hstep
      exact .of_same hobjects rfl (fun _ => rfl) rfl (fun d' hd' => ⟨d', hd', le_rfl⟩) rfl rfl rfl
    · rw [step, hdocument] at hstep
      obtain rfl := Option.some.inj hstep
      refine .of_same hobjects (by rw [hdocument]; rfl) (fun err => ?_) rfl (fun d' hd' => ?_) rfl rfl rfl
      · rw [has_of_some rfl, has_of_some hdocument]
      · obtain rfl := Option.some.inj hd'
        exact ⟨d, hdocument, le_rfl⟩
  | flush force =>
    rcases hdocument : s.document with _ | d
    · rw [step, hdocument] at hstep
      obtain rfl := Option.some.inj hstep
      refine .of_close (fun _ => has_of_none hdocument) (fun _ => ?_) rfl rfl rfl
      rw [has_of_none hdocument, Bool.or_false]
    · rw [step, hdocument] at hstep
      dsimp only at hstep
      split at hstep
      · obtain rfl := Option.some.inj hstep
        rw [← hdocument]
        exact .of_close (fun _ => rfl) (fun _ => begin_stale) (by rw [hdocument]; rfl) rfl rfl
      · next hforce =>
        obtain rfl := Option.some.inj hstep
        -- A document that is not printed is empty, so it has no messages.
        have hnone : ∀ err, s.has err = false := by
          intro err
          by_contra hhas
          rw [Bool.not_eq_false] at hhas
          have hpos := hobjects err hhas d hdocument
          exact hforce (by rw [decide_eq_true hpos, Bool.or_true])
        refine .of_close hnone (fun err => ?_) rfl rfl rfl
        rw [hnone, Bool.or_false]
  | print func line errcode text => exact print_moves hstep
  | add_null name =>
    obtain rfl := Option.some.inj hstep
    exact add_moves rfl hplain hobjects rfl rfl rfl
  | add_integer name value =>
    obtain rfl := Option.some.inj hstep
    exact add_moves rfl hplain hobjects rfl rfl rfl
  | add_double name value text =>
    obtain rfl := Option.some.inj hstep
    exact add_moves rfl hplain hobjects rfl rfl rfl
  | add_string name string =>
    obtain rfl := Option.some.inj hstep
    exact add_moves rfl hplain hobjects rfl rfl rfl

/-- The only call without a result is one that uses the messages of an earlier document. -/
theorem Session.step_eq_none :
    s.step lib call = none ↔ ∃ err, call.prints = some err ∧ s.document.isSome = true ∧ s.stale err = true := by
  cases call with
  | print func line errcode text =>
    rcases hdocument : s.document with _ | d
    · rw [step, hdocument]
      simp
    · rw [step, hdocument]
      dsimp only
      rw [Call.print_prints]
      constructor
      · intro hnone
        split at hnone
        · next hstale => exact ⟨_, rfl, rfl, hstale⟩
        · cases hnone
      · rintro ⟨err, herr, -, hstale⟩
        obtain rfl := Option.some.inj herr
        rw [if_pos hstale]
  | flush force =>
    rcases hdocument : s.document with _ | d
    · rw [step, hdocument]
      simp [Call.prints]
    · rw [step, hdocument]
      dsimp only
      split <;> simp [Call.prints]
  | set_ret_code ret_code =>
    rcases hdocument : s.document with _ | d <;> simp [step, hdocument, Call.prints]
  | _ => simp [step, Call.member, Call.prints]

theorem Follows.initial : Follows [] ({} : Session D) := by
  refine ⟨rfl, fun err => ?_, fun err => ?_, fun err herr => by cases herr⟩
  · refine iff_of_false nofun ?_
    rintro ⟨before, first, between, hcalls, -⟩
    simp at hcalls
  · refine iff_of_false nofun ?_
    rintro ⟨before, first, between, hcalls, -⟩
    simp at hcalls

theorem Follows.step (hfollows : Follows calls s) (hplain : call.Plain lib) (hstep : s.step lib call = some s') :
    Follows (calls ++ [call]) s' := by
  obtain ⟨hon, hhas, hstale, hobjects⟩ := hfollows
  obtain ⟨hon', hhas', hstale', hobjects'⟩ := Session.step_moves hplain hobjects hstep
  refine ⟨?_, fun err => ?_, fun err => ?_, hobjects'⟩
  · rw [hon', hon, enabled_snoc]
  · rw [hhas', hhas, hon, Spoken.snoc]
    constructor
    · rintro (⟨hprints, hon⟩ | ⟨hspoken, hresets⟩)
      · exact .inl ⟨hprints, hon, rfl⟩
      · exact .inr ⟨false, hspoken, hresets.symm⟩
    · rintro (⟨hprints, hon, -⟩ | ⟨since, hspoken, hor⟩)
      · exact .inl ⟨hprints, hon⟩
      · obtain ⟨rfl, hresets⟩ := Bool.or_eq_false_iff.mp hor.symm
        exact .inr ⟨hspoken, hresets⟩
  · rw [hstale', hstale, hhas, Spoken.snoc]
    constructor
    · rintro (hspoken | ⟨hspoken, hresets⟩)
      · exact .inr ⟨true, hspoken, rfl⟩
      · exact .inr ⟨false, hspoken, hresets.symm⟩
    · rintro (⟨-, -, hfalse⟩ | ⟨since, hspoken, hor⟩)
      · cases hfalse
      · cases since with
        | true => exact .inl hspoken
        | false => exact .inr ⟨hspoken, hor.symm⟩

theorem Follows.run (hplain : ∀ call ∈ calls, call.Plain lib)
    (hrun : Session.run lib calls = some s) : Follows calls s := by
  induction calls using List.reverseRecOn generalizing s with
  | nil =>
    obtain rfl := Option.some.inj hrun
    exact .initial
  | append_singleton calls call ih =>
    rw [Session.run, List.foldlM_append] at hrun
    obtain ⟨before, hbefore, hlast⟩ := Option.bind_eq_some_iff.mp hrun
    rw [List.foldlM_cons] at hlast
    obtain ⟨after, hafter, hpure⟩ := Option.bind_eq_some_iff.mp hlast
    obtain rfl := Option.some.inj hpure
    refine (ih (fun call hcall => hplain call (List.mem_append_left _ hcall)) hbefore).step (hplain call ?_) hafter
    exact List.mem_append_right _ (List.mem_singleton_self _)

/-- A run without a result stops at one of its calls. -/
theorem foldlM_eq_none {α β : Type} {f : β → α → Option β} {l : List α} {b : β} :
    l.foldlM f b = none ↔ ∃ before a after b', l = before ++ a :: after ∧ before.foldlM f b = some b' ∧ f b' a = none := by
  induction l generalizing b with
  | nil =>
    refine iff_of_false nofun ?_
    rintro ⟨before, a, after, b', hl, -⟩
    simp at hl
  | cons x l ih =>
    rw [List.foldlM_cons]
    rcases hx : f b x with _ | b₁
    · exact iff_of_true rfl ⟨[], x, l, b, rfl, rfl, hx⟩
    · rw [Option.bind_eq_bind, Option.bind_some, ih]
      constructor
      · rintro ⟨before, a, after, b', rfl, hbefore, hnone⟩
        refine ⟨x :: before, a, after, b', rfl, ?_, hnone⟩
        rw [List.foldlM_cons, hx]
        exact hbefore
      · rintro ⟨before, a, after, b', hl, hbefore, hnone⟩
        cases before with
        | nil =>
          obtain ⟨rfl, -⟩ := List.cons.inj hl
          obtain rfl := Option.some.inj hbefore
          cases hx.symm.trans hnone
        | cons y before =>
          obtain ⟨rfl, rfl⟩ := List.cons.inj hl
          rw [List.foldlM_cons, hx] at hbefore
          exact ⟨before, a, after, b', rfl, hbefore, hnone⟩

theorem Session.run_eq_none (hplain : ∀ call ∈ calls, call.Plain lib) :
    Session.run lib calls = none ↔ Reuses calls := by
  have hbefore : ∀ {before : List (Call D)} {second : Call D} {after : List (Call D)}, calls = before ++ second :: after →
      ∀ call ∈ before, call.Plain lib := fun heq call hcall => hplain call (heq ▸ List.mem_append_left _ hcall)
  constructor
  · intro hnone
    obtain ⟨before, second, after, s, hcalls, hrun, hstep⟩ := foldlM_eq_none.mp hnone
    have hfollows := Follows.run (hbefore hcalls) hrun
    obtain ⟨err, hprints, hon, hstale⟩ := step_eq_none.mp hstep
    obtain ⟨earlier, first, between, rfl, hfirst, hon', hresets⟩ := (hfollows.stale err).mp hstale
    exact ⟨earlier, first, between, second, after, err, hcalls, hfirst, hprints, hon', hfollows.on.symm.trans hon, hresets⟩
  · rintro ⟨earlier, first, between, second, after, err, hcalls, hfirst, hprints, hon', hon, hresets⟩
    rcases hrun : Session.run lib (earlier ++ first :: between) with _ | s
    · rw [run] at hrun ⊢
      rw [hcalls, List.foldlM_append, hrun]
      rfl
    · have hfollows := Follows.run (hbefore hcalls) hrun
      have hstale := (hfollows.stale err).mpr ⟨earlier, first, between, rfl, hfirst, hon', hresets⟩
      exact foldlM_eq_none.mpr ⟨_, second, after, s, hcalls, hrun,
        step_eq_none.mpr ⟨err, hprints, hfollows.on.trans hon, hstale⟩⟩

end Sessions

/-! Runs of the client -/

section Runs

variable {lib : Doubles D} {calls : List (Call D)}

/-- Whatever is printed with pointers into JSON values is what is printed without them: every document has the first
error code, the messages and the errors in order, and the last value for each name. -/
theorem json_output_documents (hplain : ∀ call ∈ calls, call.Plain lib) :
    (Output.run lib calls).map Output.printed = (Session.run lib calls).map Session.printed := by
  have hmatches := run_matches hplain
  generalize Output.run lib calls = result, Session.run lib calls = result' at hmatches ⊢
  cases hmatches with
  | none => rfl
  | some hsound =>
    obtain ⟨kvp, hsound⟩ := hsound
    exact congrArg some hsound.printed

/-- Two numbers with one name, of which the second is printed. -/
theorem json_output_documents_twice :
    (Output.run no_doubles [.enable, .add_integer [0x6E] 5, .add_integer [0x6E] 6, .flush false]).map Output.printed =
      some [.document (do
        return (← (Document.value { members := [([0x6E], .integer 6)], objects := 2 }).output Output.opts no_doubles 0) ++ [0x0A])] := by
  refine (json_output_documents ?_).trans rfl
  simp only [List.forall_mem_cons, Call.Plain, Call.member]
  simp [reserved, JSON_RET_CODE_STR, JSON_MSGS_STR, JSON_ERR_MSGS_STR, bytes]

/-- Freed memory is used exactly by a message for a document that is not the first one with messages of its kind. -/
theorem json_output_use_after_free (hplain : ∀ call ∈ calls, call.Plain lib) : Output.run lib calls = none ↔ Reuses calls := by
  rw [← Session.run_eq_none hplain]
  have hmatches := run_matches hplain
  generalize Output.run lib calls = result, Session.run lib calls = result' at hmatches ⊢
  cases hmatches with
  | none => exact iff_of_true rfl rfl
  | some hsound => exact iff_of_false nofun nofun

/-- An interactive client that prints one message for each of two commands. -/
theorem json_output_use_after_free_second :
    Output.run no_doubles [.enable, .print [] 0 0 [0x61], .flush true, .print [] 0 0 [0x62]] = none := by
  refine (json_output_use_after_free ?_).mpr ?_
  · simp only [List.forall_mem_cons, Call.Plain, Call.member]
    simp
  · exact ⟨[.enable], _, [.flush true], _, [], false, rfl, rfl, rfl, rfl, rfl, rfl⟩

end Runs

end pwrapi.pwrcmd
