import PowerApi.X86.Metadata

open Execution HashTable pwrapi.Contexts

namespace pwrapi.x86

variable {conv : Conversions} {files : SystemFiles} {probe : Probe} {s s' : Contexts X86Metadata Hierarchy}

section Construct

/-- The record that a construction on a CPU leaves, if it is built. -/
def metadata_on (conv : Conversions) (files : SystemFiles) (cpu : UInt64) : X86Metadata :=
  match x86_read_pm_counters_metadata files {} with
  | none => {}
  | some (_, md) => (x86_read_ht_metadata conv files cpu md).2

/-- The loop over the CPUs ends with the status it was given, or with a failure. -/
theorem x86_read_topology_loop_status (files : SystemFiles) (view : SystemView) (masks : List (Bool × Bool))
    (ht_id : UInt64) (status : Int) (h : Hierarchy) :
    (x86_read_topology_loop files view masks ht_id (status, h)).1 = status ∨
      (x86_read_topology_loop files view masks ht_id (status, h)).1 = PWR_RET_FAILURE := by
  induction masks generalizing ht_id h with
  | nil => exact Or.inl rfl
  | cons mask rest ih =>
    obtain ⟨possible, online⟩ := mask
    unfold x86_read_topology_loop
    cases possible with
    | false => exact ih ht_id h
    | true =>
      cases online with
      | false => exact ih (ht_id + 1) h
      | true =>
        simp only [if_true]
        split
        · exact Or.inr rfl
        · exact ih (ht_id + 1) _

/-- A topology that is read without a failure is read on a CPU, whose lists the record has. -/
theorem x86_read_topology_metadata {view : SystemView} {masks : List (Bool × Bool)} {h h' : Hierarchy}
    {md md' : X86Metadata} (hread : x86_read_topology conv files view masks h md = (PWR_RET_SUCCESS, h', md')) :
    ∃ cpu, view.cpu = some cpu ∧ md' = (x86_read_ht_metadata conv files cpu md).2 := by
  unfold x86_read_topology at hread
  cases hcpu : view.cpu with
  | none =>
    have hstatus := x86_read_topology_loop_status files view masks 0 PWR_RET_FAILURE h
    simp only [hcpu, Prod.mk.injEq] at hread
    rw [hread.1] at hstatus
    exact absurd (or_self_iff.mp hstatus) (by decide)
  | some cpu =>
    simp only [hcpu, Prod.mk.injEq] at hread
    exact ⟨cpu, rfl, hread.2.2.symm⟩

/-- A construction that succeeds leaves the record of its CPU, whatever the record was. -/
theorem x86_construct_hierarchy_metadata {view : SystemView} {md md' : X86Metadata} {h : Hierarchy}
    (hbuilt : x86_construct_hierarchy conv files view md = some (PWR_RET_SUCCESS, h, md')) :
    ∃ cpu, view.cpu = some cpu ∧ md' = metadata_on conv files cpu := by
  unfold x86_construct_hierarchy at hbuilt
  split at hbuilt
  · cases hbuilt
  · next status md₁ hcounters =>
    simp only [metadata_on, hcounters]
    split at hbuilt
    · obtain ⟨hstatus, _⟩ := Prod.mk.inj (Option.some.inj hbuilt)
      exact absurd hstatus (by decide)
    · split at hbuilt
      next status' h₁ _ =>
      split at hbuilt
      · next hstatus' =>
        obtain ⟨hstatus, _⟩ := Prod.mk.inj (Option.some.inj hbuilt)
        exact absurd hstatus hstatus'
      · have hread := Option.some.inj hbuilt
        unfold x86_read_hierarchy at hread
        split at hread
        · exact absurd (Prod.mk.inj hread).1 (by decide)
        · split at hread
          next status'' h₂ md₂ htopology =>
          split at hread
          · exact absurd (Prod.mk.inj hread).1 (by decide)
          · next hzero =>
            obtain ⟨_, hrest⟩ := Prod.mk.inj hread
            obtain ⟨rfl, rfl⟩ := Prod.mk.inj hrest
            rw [not_not.mp hzero] at htopology
            exact x86_read_topology_metadata htopology

theorem new_hierarchy_metadata {view : SystemView} {md md' : X86Metadata} {h : Hierarchy}
    (hbuilt : new_hierarchy (x86_plugin conv files) view md = some (some h, md')) :
    ∃ cpu, view.cpu = some cpu ∧ md' = metadata_on conv files cpu := by
  unfold new_hierarchy at hbuilt
  split at hbuilt
  · cases hbuilt
  · next status h₁ md₁ hconstruct =>
    split at hbuilt
    · cases hbuilt
    · next hstatus =>
      obtain ⟨rfl, rfl⟩ : h₁ = h ∧ md₁ = md' := by simpa using hbuilt
      rw [not_not.mp hstatus] at hconstruct
      have hsucceeds : x86_construct_hierarchy conv files view md = some (PWR_RET_SUCCESS, h₁, md₁) := hconstruct
      exact x86_construct_hierarchy_metadata hsucceeds

end Construct

section Runs

/-- What one call does: a context is created or destroyed, or metadata is read. -/
inductive MetaCall where
  | context (call : CntxtCall SystemView)
  | query (q : MetaQuery)

inductive MetaReply where
  | context (reply : Int × Option UInt64)
  | answer (a : Option MetaAnswer)

def MetaCall.perform (conv : Conversions) (files : SystemFiles) (probe : Probe) :
    MetaCall → Contexts X86Metadata Hierarchy → Option (MetaReply × Contexts X86Metadata Hierarchy)
  | .context call, s => (s.perform (x86_plugin conv files) call).map fun done => (.context done.1, done.2)
  | .query q, s => some (.answer (answer conv probe s q), s)

/-- A new context lies at an address that is not in use. -/
def MetaCall.Fresh (s : Contexts X86Metadata Hierarchy) : MetaCall → Prop
  | .context call => s.Fresh call
  | .query _ => True

def MetaStep (conv : Conversions) (files : SystemFiles) (probe : Probe) (s : Contexts X86Metadata Hierarchy)
    (step : MetaCall × MetaReply) (s' : Contexts X86Metadata Hierarchy) : Prop :=
  step.1.Fresh s ∧ step.1.perform conv files probe s = some (step.2, s')

/-- The contexts that are alive before and after a call answer every query as before. -/
def MetadataKept (conv : Conversions) (probe : Probe) (s s' : Contexts X86Metadata Hierarchy) : Prop :=
  ∀ q : MetaQuery, s.contexts.lookup q.context ≠ none → s'.contexts.lookup q.context ≠ none →
    answer conv probe s' q = answer conv probe s q

/-- A context is destroyed while it is the only one. A creation that gets as far as the
hierarchy while there are contexts succeeds, on a CPU whose files give the record in place. -/
def Harmless (conv : Conversions) (files : SystemFiles) (s : Contexts X86Metadata Hierarchy) : MetaCall → Prop
  | .context (.PWR_CntxtInit c) => s.live ≠ 0 → Begins c → PastNames c →
      ¬Abandons (x86_plugin conv files) s (.PWR_CntxtInit c) ∧
        ∀ cpu ∈ c.system.cpu, metadata_on conv files cpu = s.plugin_data
  | .context (.PWR_CntxtDestroy handle) => s.Destroys handle → s.live = 1
  | .query _ => True

theorem answer_congr {q : MetaQuery} (hcontext : s'.contexts.lookup q.context = s.contexts.lookup q.context)
    (hdata : s'.plugin_data = s.plugin_data) : answer conv probe s' q = answer conv probe s q := by
  rw [answer, answer, hcontext, hdata]

theorem kept_of_dead (hdead : s.live = 0) : MetadataKept conv probe s s' := by
  intro q hbefore _
  obtain ⟨context, hcontext⟩ := Option.ne_none_iff_exists'.mp hbefore
  exact absurd hdead (mem_contexts_of_live hcontext)

theorem kept_of_last (hdead : s'.live = 0) : MetadataKept conv probe s s' := by
  intro q _ hafter
  obtain ⟨context, hcontext⟩ := Option.ne_none_iff_exists'.mp hafter
  exact absurd hdead (mem_contexts_of_live hcontext)

/-- A harmless call keeps the metadata of the other contexts. -/
theorem metadata_kept_step {step : MetaCall × MetaReply} (hstep : MetaStep conv files probe s step s')
    (hharmless : Harmless conv files s step.1) : MetadataKept conv probe s s' := by
  obtain ⟨call, reply⟩ := step
  obtain ⟨hfresh, hperform⟩ := hstep
  cases call with
  | query q =>
    obtain ⟨_, rfl⟩ := Prod.mk.inj (Option.some.inj hperform)
    exact fun _ _ _ => rfl
  | context call =>
    obtain ⟨⟨reply', s₁⟩, hdone, heq⟩ := Option.map_eq_some_iff.mp hperform
    obtain ⟨_, rfl⟩ := Prod.mk.inj heq
    obtain ⟨_, _, rfl⟩ | ⟨_, habandons, c, names, data, context, rfl, hbuilt, rfl⟩ |
      ⟨_, hnot, c, hierarchy, data, context, rfl, hbegins, hpast, hbuilt, _, hdata, _, hcontexts⟩ |
      ⟨_, _, handle, address, context, rfl, hdestroys, hmem, rfl⟩ := perform_cases hdone
    · exact fun _ _ _ => rfl
    · by_cases hlive : s.live = 0
      · exact kept_of_dead hlive
      · obtain ⟨_, hcontexts, _⟩ :=
          s.allocated_del_context (x86_plugin conv files) hfresh names data context
        obtain ⟨hnone, rfl⟩ | ⟨hpast, _⟩ := hbuilt
        · have hdata : ((s.allocated c.address names s.plugin_data).del_context (x86_plugin conv files) c.address
              context).plugin_data = s.plugin_data := by
            rw [del_context, hnone]
            rfl
          exact fun q _ _ => answer_congr (by rw [hcontexts]) hdata
        · exact absurd habandons (hharmless hlive habandons.1 hpast).1
    · by_cases hlive : s.live = 0
      · exact kept_of_dead hlive
      · obtain ⟨cpu, hcpu, rfl⟩ := new_hierarchy_metadata hbuilt
        have hsame := (hharmless hlive hbegins hpast).2 cpu hcpu
        intro q hbefore _
        have hne : q.context ≠ c.address := by
          intro heq
          exact hbefore (heq ▸ hfresh)
        refine answer_congr ?_ (hdata.trans hsame)
        rw [hcontexts, lookup_insert_eq_ite, if_neg hne]
    · have hone := hharmless hdestroys
      have herase : s.live = (s.del_context (x86_plugin conv files) address context).live + 1 := live_erase hmem rfl
      have hdead : (s.del_context (x86_plugin conv files) address context).live = 0 := by omega
      exact kept_of_last hdead

/-- In every run of creations, destructions and reads on files that do not change, where
every call is harmless, every call keeps the metadata that the other contexts see. -/
theorem metadata_kept_of_harmless (conv : Conversions) (files : SystemFiles) (probe : Probe)
    (s : Contexts X86Metadata Hierarchy) (run : List ((MetaCall × MetaReply) × Contexts X86Metadata Hierarchy))
    (hrun : EachStep (MetaStep conv files probe) s run)
    (hharmless : EachStep (fun s step _ => Harmless conv files s step.1) s run) :
    EachStep (fun s _ s' => MetadataKept conv probe s s') s run :=
  (hrun.and hharmless).imp fun _ _ _ h => metadata_kept_step h.1 h.2

instance (s : Contexts X86Metadata Hierarchy) : (call : MetaCall) → Decidable (call.Fresh s)
  | .context call => inferInstanceAs (Decidable (s.Fresh call))
  | .query _ => .isTrue trivial

instance (s : Contexts X86Metadata Hierarchy) : (call : MetaCall) → Decidable (Harmless conv files s call)
  | .context (.PWR_CntxtInit c) =>
    -- not the search through all numbers of CPUs
    have : Decidable (∀ cpu ∈ c.system.cpu, metadata_on conv files cpu = s.plugin_data) :=
      decidable_of_iff (c.system.cpu.all fun cpu => decide (metadata_on conv files cpu = s.plugin_data))
        (by simp [Option.all_eq_true])
    inferInstanceAs (Decidable (_ → _ → _ → _ ∧ _))
  | .context (.PWR_CntxtDestroy _) => inferInstanceAs (Decidable (_ → _))
  | .query _ => .isTrue trivial

/-- The numbers of two C-states and of one frequency. -/
def plain : Conversions where
  g_ascii_strtoull str := if str = "0" then some 0 else if str = "1" then some 1 else none
  g_strtod _ := some ⟨0x4000000000000000⟩
  print_lf _ := "2.000000"

/-- A node with one CPU, whose counters are read ten times a second. -/
def one_cpu : SystemFiles where
  raw_scan_hz := some 10
  cpu_masks := some [(true, true)]
  cstate_dir _ := some [(true, "state0"), (true, "state1")]
  freq_list _ := some ["2.0"]
  governor_list _ := some ["performance"]
  topology := { physical_package_id := fun _ => some 0, core_id := fun _ => some 0 }

def one_cpu_context (address : Nat) (draw : UInt32) : MetaCall :=
  .context (.PWR_CntxtInit {
    role := .RM, name := some "rm", address, draws := [draw]
    system := { cpu := some 0, node := ⟨some 1, some 1⟩, pplane_cpu := ⟨some 2, some 2⟩, pplane_mem := ⟨some 3,
      some 3⟩
                hts := fun ht_id => ⟨ht_id, ⟨some 4, some 4⟩, ⟨some 5, some 5⟩, ⟨some 6, some 6⟩, ⟨some 7, some 7⟩,
                  some (0, 0)⟩
                temp_ids := true } })

/-- How often the power of a context's node is updated. -/
def update_rate (context : Nat) : MetaQuery := { context, object := 1, attr := .POWER, item := .inl .UPDATE_RATE }

def no_probe : Probe := fun _ _ _ => { status := PWR_RET_FAILURE }

def one_cpu_run (calls : List MetaCall) : List ((MetaCall × MetaReply) × Contexts X86Metadata Hierarchy) :=
  run_calls (MetaCall.perform plain one_cpu no_probe) calls { plugin_data := {} }

theorem one_cpu_run_steps (calls : List MetaCall)
    (hfresh : EachStep (fun s step _ => step.1.Fresh s) { plugin_data := {} } (one_cpu_run calls)) :
    EachStep (MetaStep plain one_cpu no_probe) { plugin_data := {} } (one_cpu_run calls) :=
  (hfresh.and (eachStep_run_calls (MetaCall.perform plain one_cpu no_probe) _ calls)).imp fun _ _ _ h => h

def two_contexts : List MetaCall := [one_cpu_context 1 5, one_cpu_context 2 6]

theorem metadata_kept_two_contexts :
    (one_cpu_run two_contexts).map (fun x => x.2.live) = [1, 2] ∧
    EachStep (fun s _ s' => MetadataKept plain no_probe s s') { plugin_data := {} } (one_cpu_run two_contexts) :=
  ⟨by decide +kernel, metadata_kept_of_harmless plain one_cpu no_probe _ _ (one_cpu_run_steps _ (by decide +kernel))
    (by decide +kernel)⟩

/-- The first of two contexts is destroyed. -/
def destroyed_beside : List MetaCall := two_contexts ++ [.context (.PWR_CntxtDestroy (OPAQUE_GENERATE 5 5))]

/-- Destroying one context clears the metadata of the other. -/
theorem destruction_clears_metadata :
    EachStep (MetaStep plain one_cpu no_probe) { plugin_data := {} } (one_cpu_run destroyed_beside) ∧
    (one_cpu_run destroyed_beside).map (fun x => answer plain no_probe x.2 (update_rate 2)) =
      [none, some (.ok (.double (.of_uint64 10))), some (.ok (.double ⟨0⟩))] ∧
    ¬EachStep (fun s _ s' => MetadataKept plain no_probe s s') { plugin_data := {} } (one_cpu_run destroyed_beside) := by
  refine ⟨one_cpu_run_steps _ (by decide +kernel), by decide +kernel, fun hkept => ?_⟩
  have hrate : EachStep (fun s _ s' => s.contexts.lookup 2 ≠ none → s'.contexts.lookup 2 ≠ none →
      answer plain no_probe s' (update_rate 2) = answer plain no_probe s (update_rate 2))
      { plugin_data := {} } (one_cpu_run destroyed_beside) := hkept.imp fun _ _ _ h => h (update_rate 2)
  exact absurd hrate (by decide +kernel)

end Runs

end pwrapi.x86
