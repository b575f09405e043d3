import PowerApi.Api.Contexts

open Execution HashTable

namespace pwrapi

namespace HintLog

variable {h : HintLog}

/-- The log in use is the only one that was started and not terminated. -/
def Sound (h : HintLog) : Prop := h.opened = h.logctx.toList

theorem app_hint_init_initcount (env : HintEnv) : (app_hint_init env h).initcount = h.initcount + 1 := by
  simp only [app_hint_init]
  split <;> rfl

theorem app_hint_init_sound (env : HintEnv) (hsound : h.Sound) : (app_hint_init env h).Sound := by
  unfold Sound at hsound ⊢
  simp only [app_hint_init]
  split
  · exact hsound
  · exact hsound
  · next hlog _ =>
    rw [hlog, Option.toList_none] at hsound
    simp only [hsound, List.append_nil]

theorem app_hint_init_logctx (env : HintEnv) {log : Nat} (hlog : h.logctx = some log) :
    (app_hint_init env h).logctx = some log := by
  simp only [app_hint_init, hlog]

theorem app_hint_term_of_zero (hzero : h.initcount = 0) : app_hint_term h = h := by
  rw [app_hint_term, if_pos hzero]

/-- A termination that is not the last one leaves the log alone. -/
theorem app_hint_term_of_nested (hnested : 1 < h.initcount) :
    app_hint_term h = { h with initcount := h.initcount - 1 } := by
  have hzero : h.initcount ≠ 0 := by omega
  have hlast : h.initcount - 1 > 0 := by omega
  simp only [app_hint_term, if_neg hzero, if_pos hlast]

theorem app_hint_term_initcount : (app_hint_term h).initcount = h.initcount - 1 := by
  simp only [app_hint_term]
  split
  · next hzero => rw [hzero]
  · split
    · rfl
    · split <;> rfl

theorem app_hint_term_sound (hsound : h.Sound) : (app_hint_term h).Sound := by
  unfold Sound at hsound ⊢
  simp only [app_hint_term]
  split
  · exact hsound
  · split
    · exact hsound
    · split
      · exact hsound
      · next log hlog =>
        rw [hsound, hlog]
        exact List.erase_cons_head log []

/-- The last termination leaves no log. -/
theorem app_hint_term_last (hlast : h.initcount = 1) : (app_hint_term h).logctx = none := by
  simp only [app_hint_term, hlast]
  split
  · contradiction
  · split
    · contradiction
    · split
      · assumption
      · rfl

end HintLog

namespace Contexts

open HintLog

variable {μ η ι : Type} {plugin : Plugin μ η ι} {s s' : Contexts μ η}

/-- A call leaves the contexts that are alive, their handles and their log as they were. -/
structure Untouched (s s' : Contexts μ η) : Prop where
  hints : s'.hints = s.hints
  contexts : s'.contexts = s.contexts
  table : s'.opaque_map.table = s.opaque_map.table
  refs : ∀ address, s.contexts.lookup address ≠ none → s'.opaque_map.refs address = s.opaque_map.refs address
  names : s.live ≠ 0 → s'.context_name_map = s.context_name_map
  plugin_data : s.live ≠ 0 → s'.plugin_data = s.plugin_data

/-- The nesting count is the number of contexts alive, the log stays open while there are any
and is closed with the last one, and a failed call touches none. -/
structure HintsNested (s : Contexts μ η) (step : CntxtCall ι × Int × Option UInt64)
    (s' : Contexts μ η) : Prop where
  nested : s'.hints.initcount = s'.live
  stays_open : ∀ log, s.hints.logctx = some log → s'.live ≠ 0 →
    s'.hints.logctx = some log ∧ log ∈ s'.hints.opened
  closed_at_last : s'.live = 0 → s'.hints.logctx = none ∧ s'.hints.opened = []
  failed : step.2.1 ≠ PWR_RET_SUCCESS → s.Untouched s'

structure Nested (s : Contexts μ η) : Prop where
  count : s.hints.initcount = s.live
  sound : s.hints.Sound
  closed : s.live = 0 → s.hints.logctx = none

theorem Untouched.refl (s : Contexts μ η) : s.Untouched s :=
  ⟨rfl, rfl, rfl, fun _ _ => rfl, fun _ => rfl, fun _ => rfl⟩

theorem Nested.opened_of_closed (hs : s.Nested) (hclosed : s.hints.logctx = none) : s.hints.opened = [] := by
  have hopened : s.hints.opened = s.hints.logctx.toList := hs.sound
  rw [hopened, hclosed, Option.toList_none]

/-- A call after which the count is right nests when it keeps the log of the contexts alive. -/
theorem Nested.hints_nested {step : CntxtCall ι × Int × Option UInt64} (hs' : s'.Nested)
    (hlog : ∀ log, s.hints.logctx = some log → s'.live ≠ 0 → s'.hints.logctx = some log)
    (hfailed : step.2.1 ≠ PWR_RET_SUCCESS → s.Untouched s') : HintsNested s step s' where
  nested := hs'.count
  stays_open log hopen hlive := by
    have hopen' := hlog log hopen hlive
    have hopened : s'.hints.opened = s'.hints.logctx.toList := hs'.sound
    rw [hopened, hopen']
    exact ⟨rfl, List.mem_singleton.mpr rfl⟩
  closed_at_last hlive := ⟨hs'.closed hlive, hs'.opened_of_closed (hs'.closed hlive)⟩
  failed := hfailed

/-- A context that is given up while no other is alive leaves nothing behind. -/
theorem Nested.untouched_of_abandoned (plugin : Plugin μ η ι) (hs : s.Nested) (hnone : s.live = 0) {address : Nat}
    (hfree : s.contexts.lookup address = none) (names : HashTable String Nat) (data : μ) (context : CntxtRecord η) :
    s.Untouched ((s.allocated address names data).del_context plugin address context) := by
  obtain ⟨hhints, hcontexts, htable, hrefs⟩ := s.allocated_del_context plugin hfree names data context
  refine ⟨?_, hcontexts, htable, ?_, fun hlive => absurd hnone hlive, fun hlive => absurd hnone hlive⟩
  · rw [hhints, app_hint_term_of_zero (hs.count.trans hnone)]
  · intro other hother
    have hne : other ≠ address := by
      rintro rfl
      exact hother hfree
    rw [hrefs, Function.update_of_ne hne]

theorem Nested.congr (hs : s.Nested) (hhints : s'.hints = s.hints) (hcontexts : s'.contexts = s.contexts) :
    s'.Nested := by
  have hlive : s'.live = s.live := by rw [live, hcontexts, live]
  exact ⟨by rw [hhints, hlive, hs.count], by rw [hhints]; exact hs.sound,
    fun h => by rw [hhints, hs.closed (hlive.symm.trans h)]⟩

theorem Nested.created (hs : s.Nested) {address : Nat} {context : CntxtRecord η} {env : HintEnv}
    (hfree : s.contexts.lookup address = none) (hhints : s'.hints = app_hint_init env s.hints)
    (hcontexts : s'.contexts = s.contexts.insert address context) : s'.Nested := by
  have hlive := live_insert hfree context hcontexts
  refine ⟨?_, ?_, fun hzero => ?_⟩
  · rw [hhints, app_hint_init_initcount, hs.count, hlive]
  · rw [hhints]
    exact app_hint_init_sound env hs.sound
  · rw [hlive] at hzero
    exact absurd hzero (Nat.succ_ne_zero _)

theorem Nested.destroyed (plugin : Plugin μ η ι) (hs : s.Nested) {address : Nat} {context : CntxtRecord η}
    (hmem : s.contexts.lookup address = some context) : (s.del_context plugin address context).Nested := by
  have hlive : s.live = (s.del_context plugin address context).live + 1 := live_erase hmem rfl
  refine ⟨?_, app_hint_term_sound hs.sound, fun hzero => ?_⟩
  · show (app_hint_term s.hints).initcount = _
    rw [app_hint_term_initcount, hs.count, hlive, Nat.add_sub_cancel]
  · refine app_hint_term_last ?_
    rw [hs.count, hlive, hzero]

/-- Giving up a context beside others takes one of theirs from the count. -/
theorem Nested.not_nested_of_abandoned (hs : s.Nested) (hsome : s.live ≠ 0)
    {step : CntxtCall ι × Int × Option UInt64} (hhints : s'.hints = app_hint_term s.hints)
    (hcontexts : s'.contexts = s.contexts) : ¬HintsNested s step s' := by
  intro hnested
  have hcount := hnested.nested
  have hlive : s'.live = s.live := by rw [live, hcontexts, live]
  rw [hhints, app_hint_term_initcount, hs.count, hlive] at hcount
  omega

/-- While the count is right, a call nests exactly when it gives up no context beside others. -/
theorem hints_nested_step {step : CntxtCall ι × Int × Option UInt64} (hstep : ContextStep plugin s step s')
    (hs : s.Nested) : (HintsNested s step s' ↔ (Abandons plugin s step.1 → s.live = 0)) ∧
      ((Abandons plugin s step.1 → s.live = 0) → s'.Nested) := by
  obtain ⟨call, reply⟩ := step
  obtain ⟨hfresh, hperform⟩ := hstep
  obtain ⟨_, hnot, rfl⟩ | ⟨_, habandons, c, names, data, context, rfl, _, rfl⟩ |
    ⟨hstatus, hnot, c, _, _, context, rfl, _, _, _, _, _, hhints, hcontexts⟩ |
    ⟨hstatus, hnot, handle, address, context, rfl, _, hmem, rfl⟩ := perform_cases hperform
  · have hnested : HintsNested s' (call, reply) s' := hs.hints_nested (fun _ hlog _ => hlog) fun _ => .refl s'
    exact ⟨iff_of_true hnested fun habandons => absurd habandons hnot, fun _ => hs⟩
  · obtain ⟨hhints, hcontexts, _⟩ := s.allocated_del_context plugin hfresh names data context
    have hkept (hnone : s.live = 0) := hs.untouched_of_abandoned plugin hnone hfresh names data context
    refine ⟨⟨fun hnested _ => ?_, fun hnone => ?_⟩, fun hnone => ?_⟩
    · by_contra hsome
      exact hs.not_nested_of_abandoned hsome hhints hcontexts hnested
    · have huntouched := hkept (hnone habandons)
      refine (hs.congr huntouched.hints hcontexts).hints_nested (fun _ hlog _ => ?_) fun _ => huntouched
      rw [huntouched.hints, hlog]
    · exact hs.congr (hkept (hnone habandons)).hints hcontexts
  · have hs' := hs.created hfresh hhints hcontexts
    refine ⟨iff_of_true (hs'.hints_nested (fun log hlog _ => ?_) fun hfailed => absurd hstatus hfailed)
      fun habandons => absurd habandons hnot, fun _ => hs'⟩
    rw [hhints, app_hint_init_logctx _ hlog]
  · have hs' := hs.destroyed plugin hmem
    refine ⟨iff_of_true (hs'.hints_nested (fun log hlog hlive => ?_) fun hfailed => absurd hstatus hfailed)
      fun habandons => absurd habandons hnot, fun _ => hs'⟩
    have hcount : 1 < s.hints.initcount := by
      have hlive' : s.live = (s.del_context plugin address context).live + 1 := live_erase hmem rfl
      rw [hs.count]
      omega
    show (app_hint_term s.hints).logctx = some log
    rw [app_hint_term_of_nested hcount]
    exact hlog

/-- The state of a process that has no context yet. -/
def start (data : μ) : Contexts μ η := { plugin_data := data }

theorem start_nested (data : μ) : (start data : Contexts μ η).Nested := ⟨rfl, rfl, fun _ => rfl⟩

/-- In every run of creations and destructions, whatever the plugin builds, the log of the
application hints is nested as the contexts are, if and only if every creation that fails
when its context is allocated already does so while no context is alive. -/
theorem hints_nested_iff (data : μ) (run : List ((CntxtCall ι × Int × Option UInt64) × Contexts μ η))
    (hrun : EachStep (ContextStep plugin) (start data) run) :
    EachStep HintsNested (start data) run ↔
      EachStep (fun s step _ => Abandons plugin s step.1 → s.live = 0) (start data) run :=
  hrun.iff_of_invariant (start_nested data) (fun _ _ _ hstep hs => (hints_nested_step hstep hs).2)
    fun _ _ _ hstep hs => (hints_nested_step hstep hs).1

/-- A plugin that keeps no data and builds the hierarchies it is told to build. -/
def obedient : Plugin Unit Unit Bool where
  construct_hierarchy built _ := some (if built then 0 else 1, (), ())
  destruct_hierarchy _ _ := ()

/-- An application's context, with a log of the hints at address 9. -/
def app_context (built : Bool) (address : Nat) (draw : UInt32) : CntxtCall Bool :=
  .PWR_CntxtInit { role := .APP, name := some "app", system := built, address, draws := [draw],
                   env := { PWR_HINT_LOG_PATH := some "hints", pmlog_init_new := fun _ _ _ _ _ => some 9 } }

/-- A creation that fails, and a context that lives alone. -/
def failed_before : List (CntxtCall Bool) :=
  [app_context false 1 5, app_context true 1 5, .PWR_CntxtDestroy (OPAQUE_GENERATE 5 5)]

/-- A creation that fails while a context is alive. -/
def failed_beside : List (CntxtCall Bool) := [app_context true 1 5, app_context false 2 6]

def obedient_run (calls : List (CntxtCall Bool)) :
    List ((CntxtCall Bool × Int × Option UInt64) × Contexts Unit Unit) :=
  run_calls (perform obedient) calls (start ())

theorem obedient_run_steps (calls : List (CntxtCall Bool))
    (hfresh : EachStep (fun s step _ => s.Fresh step.1) (start ()) (obedient_run calls)) :
    EachStep (ContextStep obedient) (start ()) (obedient_run calls) :=
  (hfresh.and (eachStep_run_calls (perform obedient) (start ()) calls)).imp fun _ _ _ h => h

theorem hints_nested_iff_failed_before :
    (obedient_run failed_before).length = 3 ∧ EachStep HintsNested (start ()) (obedient_run failed_before) :=
  ⟨by decide +kernel, (hints_nested_iff () _ (obedient_run_steps _ (by decide +kernel))).mpr (by decide +kernel)⟩

/-- The failed creation closes the log of the context that is alive. -/
theorem failed_creation_closes_log :
    EachStep (ContextStep obedient) (start ()) (obedient_run failed_beside) ∧
    (obedient_run failed_beside).map (fun x => (x.2.live, x.2.hints.logctx)) = [(1, some 9), (1, none)] ∧
    ¬EachStep HintsNested (start ()) (obedient_run failed_beside) := by
  have hrun := obedient_run_steps failed_beside (by decide +kernel)
  refine ⟨hrun, by decide +kernel, fun hnested => ?_⟩
  have hcounts := (forall_mem_iff_eachStep (P := fun s : Contexts Unit Unit => s.hints.initcount = s.live)).mpr
    (hnested.imp (S := fun _ _ s' => s'.hints.initcount = s'.live) fun _ _ _ h => h.nested)
  exact absurd hcounts (by decide +kernel)

end Contexts

end pwrapi
