import PowerApi.Cpudev.StateQueries

namespace pwrapi.cpudev

/-- The states that are defined. -/
def InRange (state : Int) : Prop := 0 ≤ state ∧ state < 5

/-- A call reads nothing outside a table. It refuses a state that is not defined, and does
what the entry of a defined one names. -/
def BoundsRight {ρ : Type} (state : Int) (refused named : ρ → Prop) (result : Option ρ) : Prop :=
  ∃ reply, result = some reply ∧ (¬InRange state → refused reply) ∧ (InRange state → named reply)

/-- A failure before anything is set. -/
def SetReply.Refused (reply : SetReply) : Prop := reply.status ≠ PWR_RET_SUCCESS ∧ reply.sets = []

/-- The limit is set to the C-state that the state stands for, one of the table of latencies. -/
def LimitSet (set : AttrSet → Int) (sstate : Int) (cstates : StateTable UInt64) (reply : SetReply) : Prop :=
  ∃ latencies, cstates.values = some latencies ∧ ∃ c < latencies.length,
    map_ss_to_cs cstates.states sstate = some (c : Int) ∧
      reply = { status := set (.CSTATE_LIMIT (.ofInt c)), sets := [.CSTATE_LIMIT (.ofInt c)] }

/-- The latency is the entry that the state stands for. -/
def LatencyStored (sstate : Int) (cstates : StateTable UInt64) (reply : GetReply UInt64) : Prop :=
  ∃ latencies, cstates.values = some latencies ∧ ∃ (c : ℕ) (latency : UInt64),
    map_ss_to_cs cstates.states sstate = some (c : Int) ∧ latencies[c]? = some latency ∧
      reply = { status := PWR_RET_SUCCESS, stored := some latency }

/-- The governor is set, and if that succeeds the frequency to the entry that the state stands for. -/
def FreqSet (set : AttrSet → Int) (pstate : Int) (freqs : StateTable Binary64) (reply : SetReply) : Prop :=
  ∃ values, freqs.values = some values ∧ ∃ (i : ℕ) (freq : Binary64),
    map_ps_to_freq freqs.states pstate = some (i : Int) ∧ values[i]? = some freq ∧
      reply =
        let gov := AttrSet.GOV PwrAttrGov.LINUX_USERSPACE.ivalue
        if set gov ≠ PWR_RET_SUCCESS then { status := set gov, sets := [gov] }
        else { status := set (.FREQ_REQ freq), sets := [gov, .FREQ_REQ freq] }

/-- A state that is not defined is read outside the table. -/
theorem map_state_eq_none {num state : Int} : map_state (init_state_table num) state = none ↔ ¬InRange state := by
  unfold map_state InRange
  split_ifs with hpos
  · rw [List.getElem?_eq_none_iff, length_init_state_table]
    omega
  · exact iff_of_true rfl fun h => hpos h.1

/-- Where there is an entry, an initialisation that succeeds hands over the array. -/
theorem handsOver_of_success {α : Type} {init_states : Int → List Int} {place : Int → ℕ → ℕ} {looks : List (Lookups α)}
    {look : Lookups α} {t : StateTable α} (hs : Consistent init_states place looks t) (hpos : CountPositive look t)
    (hinit : ¬(init_values init_states place look t).1.retval ≠ PWR_RET_SUCCESS) :
    ∃ values, HandsOver init_states (init_values init_states place look t) values := by
  obtain hfail | ⟨hzero, _⟩ | hover := init_values_outcomes hs look
  · exact absurd hfail hinit
  · exact absurd hpos hzero
  · exact hover

/-- A call is right exactly if the initialisation fails or the state is defined, where it is right
about the entries of the array that is handed over. -/
theorem bounds_right_iff {α ρ : Type} {place : Int → ℕ → ℕ} {looks : List (Lookups α)} {look : Lookups α}
    {t : StateTable α} {state : Int} {failed : ρ} {refused named : ρ → Prop} {rest : InitReply α → Int → Option ρ}
    (hs : Consistent init_state_table place looks t) (hpos : CountPositive look t) (hfailed : refused failed)
    (hnamed : ∀ values, HandsOver init_state_table (init_values init_state_table place look t) values →
      ∀ (c : ℕ) (hc : c < values.length),
        map_state (init_values init_state_table place look t).2.states state = some (c : Int) →
        entry_at (init_values init_state_table place look t).1.handed c = some values[c] →
        ∃ reply, rest (init_values init_state_table place look t).1 c = some reply ∧ named reply) :
    BoundsRight state refused
        (fun reply => (init_values init_state_table place look t).1.retval = PWR_RET_SUCCESS → named reply)
        (after_init (init_values init_state_table place look t) (some failed) fun reply states =>
          with_entry (map_state states state) failed (rest reply)).1 ↔
      (init_values init_state_table place look t).1.retval ≠ PWR_RET_SUCCESS ∨ InRange state := by
  by_cases hinit : (init_values init_state_table place look t).1.retval ≠ PWR_RET_SUCCESS
  · rw [after_init_of_failure hinit]
    exact iff_of_true ⟨failed, rfl, fun _ => hfailed, fun _ hsuccess => absurd hsuccess hinit⟩ (Or.inl hinit)
  rw [or_iff_right hinit, after_init_of_success (not_not.mp hinit)]
  obtain ⟨values, hover⟩ := handsOver_of_success hs hpos hinit
  by_cases hrange : InRange state
  · obtain ⟨c, hc, hmap, hentry⟩ := map_state_entry hover.pos hrange.1 hrange.2
    rw [← hover.states] at hmap
    obtain ⟨reply, hreply, hright⟩ := hnamed values hover c hc hmap (by rw [hover.handed]; exact hentry _)
    have hne : ¬(c : Int) = -1 := by omega
    refine iff_of_true ⟨reply, ?_, fun hnot => absurd hrange hnot, fun _ _ => hright⟩ hrange
    rw [hmap, with_entry, if_neg hne, hreply]
  · refine iff_of_false ?_ hrange
    rintro ⟨reply, hreply, _⟩
    rw [hover.states, map_state_eq_none.mpr hrange, with_entry] at hreply
    cases hreply

section Sleep

variable {looks : List (Lookups UInt64)} {look : Lookups UInt64} {t : StateTable UInt64}

/-- A limit is set right exactly if the initialisation fails or the state is defined. -/
theorem PWR_SetSleepStateLimit_right_iff (hs : Consistent init_ss_to_cs (fun _ i => i) looks t)
    (hpos : CountPositive look t) (set : AttrSet → Int) (sstate : Int) :
    BoundsRight sstate SetReply.Refused
        (fun reply => (init_cstate_limits look t).1.retval = PWR_RET_SUCCESS →
          LimitSet set sstate (init_cstate_limits look t).2 reply)
        (PWR_SetSleepStateLimit look set t sstate).1 ↔
      (init_cstate_limits look t).1.retval ≠ PWR_RET_SUCCESS ∨ InRange sstate := by
  apply bounds_right_iff hs hpos
  · exact ⟨PWR_RET_FAILURE_ne_SUCCESS, rfl⟩
  · intro latencies hover c hc hmap _
    exact ⟨_, rfl, latencies, hover.published, c, hc, hmap, rfl⟩

/-- A latency is right exactly if the initialisation fails or the state is defined. -/
theorem PWR_WakeUpLatency_right_iff (hs : Consistent init_ss_to_cs (fun _ i => i) looks t)
    (hpos : CountPositive look t) (sstate : Int) :
    BoundsRight sstate (fun reply => reply.status ≠ PWR_RET_SUCCESS)
        (fun reply => (init_cstate_limits look t).1.retval = PWR_RET_SUCCESS →
          LatencyStored sstate (init_cstate_limits look t).2 reply)
        (PWR_WakeUpLatency look t sstate).1 ↔
      (init_cstate_limits look t).1.retval ≠ PWR_RET_SUCCESS ∨ InRange sstate := by
  apply bounds_right_iff hs hpos
  · exact PWR_RET_FAILURE_ne_SUCCESS
  · intro latencies hover c hc hmap hentry
    rw [hentry]
    exact ⟨_, rfl, latencies, hover.published, c, latencies[c], hmap, List.getElem?_eq_getElem hc, rfl⟩

end Sleep

/-- A performance state is set right exactly if the initialisation fails or the state is defined. -/
theorem PWR_SetPerfState_right_iff {looks : List (Lookups Binary64)} {look : Lookups Binary64} {t : StateTable Binary64}
    (hs : Consistent init_ps_to_freq (fun num_freqs i => (num_freqs - i - 1).toNat) looks t)
    (hpos : CountPositive look t) (set : AttrSet → Int) (pstate : Int) :
    BoundsRight pstate SetReply.Refused
        (fun reply => (init_freqs look t).1.retval = PWR_RET_SUCCESS → FreqSet set pstate (init_freqs look t).2 reply)
        (PWR_SetPerfState look set t pstate).1 ↔
      (init_freqs look t).1.retval ≠ PWR_RET_SUCCESS ∨ InRange pstate := by
  apply bounds_right_iff hs hpos
  · exact ⟨PWR_RET_FAILURE_ne_SUCCESS, rfl⟩
  · intro freqs hover i hi hmap hentry
    have hlookup := List.getElem?_eq_getElem hi
    rw [hentry]
    by_cases hgov : set (AttrSet.GOV PwrAttrGov.LINUX_USERSPACE.ivalue) ≠ PWR_RET_SUCCESS
    · exact ⟨_, if_pos hgov, freqs, hover.published, i, freqs[i], hmap, hlookup, (if_pos hgov).symm⟩
    · exact ⟨_, if_neg hgov, freqs, hover.published, i, freqs[i], hmap, hlookup, (if_neg hgov).symm⟩

/-- Whatever an application called before, and where there is at least one C-state or frequency,
the calls stay within the tables and do what the state names exactly if the initialisation
fails or the state is defined. -/
theorem state_bounds_right_iff (calls : List AppCall) :
    (∀ (look : Lookups UInt64) (set : AttrSet → Int) (sstate : Int), CountPositive look (run_app calls).cstates →
      ((BoundsRight sstate SetReply.Refused
          (fun reply => (init_cstate_limits look (run_app calls).cstates).1.retval = PWR_RET_SUCCESS →
            LimitSet set sstate (init_cstate_limits look (run_app calls).cstates).2 reply)
          (PWR_SetSleepStateLimit look set (run_app calls).cstates sstate).1 ↔
        (init_cstate_limits look (run_app calls).cstates).1.retval ≠ PWR_RET_SUCCESS ∨ InRange sstate) ∧
      (BoundsRight sstate (fun reply => reply.status ≠ PWR_RET_SUCCESS)
          (fun reply => (init_cstate_limits look (run_app calls).cstates).1.retval = PWR_RET_SUCCESS →
            LatencyStored sstate (init_cstate_limits look (run_app calls).cstates).2 reply)
          (PWR_WakeUpLatency look (run_app calls).cstates sstate).1 ↔
        (init_cstate_limits look (run_app calls).cstates).1.retval ≠ PWR_RET_SUCCESS ∨ InRange sstate))) ∧
    (∀ (look : Lookups Binary64) (set : AttrSet → Int) (pstate : Int), CountPositive look (run_app calls).freqs →
      (BoundsRight pstate SetReply.Refused
          (fun reply => (init_freqs look (run_app calls).freqs).1.retval = PWR_RET_SUCCESS →
            FreqSet set pstate (init_freqs look (run_app calls).freqs).2 reply)
          (PWR_SetPerfState look set (run_app calls).freqs pstate).1 ↔
        (init_freqs look (run_app calls).freqs).1.retval ≠ PWR_RET_SUCCESS ∨ InRange pstate)) := by
  have hs := run_app_consistent calls
  refine ⟨fun look set sstate hpos => ⟨?_, ?_⟩, fun look set pstate hpos => ?_⟩
  · exact PWR_SetSleepStateLimit_right_iff hs.cstates hpos set sstate
  · exact PWR_WakeUpLatency_right_iff hs.cstates hpos sstate
  · exact PWR_SetPerfState_right_iff hs.freqs hpos set pstate

/-- The deepest one of the two C-states is in range, after another call. -/
theorem state_bounds_right_deepest :
    (PWR_SetSleepStateLimit look_cstates (fun _ => PWR_RET_SUCCESS) (run_app [.PWR_WakeUpLatency look_cstates 2]).cstates
        4).1 = some { status := PWR_RET_SUCCESS, sets := [.CSTATE_LIMIT 1] } ∧
      BoundsRight 4 SetReply.Refused
        (fun reply =>
          (init_cstate_limits look_cstates (run_app [.PWR_WakeUpLatency look_cstates 2]).cstates).1.retval =
              PWR_RET_SUCCESS →
            LimitSet (fun _ => PWR_RET_SUCCESS) 4
              (init_cstate_limits look_cstates (run_app [.PWR_WakeUpLatency look_cstates 2]).cstates).2 reply)
        (PWR_SetSleepStateLimit look_cstates (fun _ => PWR_RET_SUCCESS)
          (run_app [.PWR_WakeUpLatency look_cstates 2]).cstates 4).1 := by
  refine ⟨by decide +kernel, ?_⟩
  have hpos : CountPositive look_cstates (run_app [.PWR_WakeUpLatency look_cstates 2]).cstates :=
    fun _ _ => by decide +kernel
  exact ((state_bounds_right_iff [.PWR_WakeUpLatency look_cstates 2]).1 look_cstates _ 4 hpos).1.mpr
    (Or.inr (by decide : (0 : Int) ≤ 4 ∧ (4 : Int) < 5))

/-- The state after the last one is read behind the table, with two C-states. -/
theorem state_outside_table_read :
    (init_cstate_limits look_cstates {}).1.retval = PWR_RET_SUCCESS ∧
      (PWR_SetSleepStateLimit look_cstates (fun _ => PWR_RET_SUCCESS) {} 5).1 = none ∧
      ¬BoundsRight 5 SetReply.Refused
        (fun reply => (init_cstate_limits look_cstates {}).1.retval = PWR_RET_SUCCESS →
          LimitSet (fun _ => PWR_RET_SUCCESS) 5 (init_cstate_limits look_cstates {}).2 reply)
        (PWR_SetSleepStateLimit look_cstates (fun _ => PWR_RET_SUCCESS) {} 5).1 := by
  have hnone : (PWR_SetSleepStateLimit look_cstates (fun _ => PWR_RET_SUCCESS) {} 5).1 = none := by decide +kernel
  refine ⟨by decide +kernel, hnone, ?_⟩
  rintro ⟨reply, hreply, _⟩
  rw [hnone] at hreply
  cases hreply

end pwrapi.cpudev
