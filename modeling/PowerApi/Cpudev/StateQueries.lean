import Mathlib.Order.Bounds.Basic
import PowerApi.Cpudev.AppStates

open AscendingTable

namespace pwrapi.cpudev

/-- The array that an initialisation hands over. -/
def InitReply.array {α : Type} (reply : InitReply α) : Option (List α) := reply.handed.map Prod.fst

/-- The first state whose index in the table is at least the given one. -/
def LeastState (states : List Int) (index state : Int) : Prop :=
  IsLeast {s | ∃ x, map_state states s = some x ∧ index ≤ x} state

/-- A query that succeeds stores a state that is the right one for the array and the table of states. -/
def QueryRight {α : Type} (Found : List α → List Int → Int → Prop) (result : GetReply Int × StateTable α) : Prop :=
  result.1.status = PWR_RET_SUCCESS → ∃ values, result.2.values = some values ∧
    ∃ state, result.1.stored = some state ∧ Found values result.2.states state

/-- The sleep state is the one that the limit maps to. -/
def SleepStateRight (limit : UInt64) : GetReply Int × StateTable UInt64 → Prop :=
  QueryRight fun _ states state => LeastState states limit.toNat state

/-- The entry of the table that a sleep state stands for does not exceed a latency. -/
def Qualifies (states : List Int) (latencies : List UInt64) (latency : UInt64) (state : Int) : Prop :=
  ∃ c : ℕ, map_ss_to_cs states state = some (c : Int) ∧ ∃ entry, latencies[c]? = some entry ∧ entry ≤ latency

/-- A recommendation does not read outside a table, and if it succeeds then it is the deepest
state that qualifies. -/
def RecommendationRight (latency : UInt64) (result : Option (GetReply Int) × StateTable UInt64) : Prop :=
  ∃ reply, result.1 = some reply ∧ (reply.status = PWR_RET_SUCCESS →
    ∃ latencies, result.2.values = some latencies ∧ ∃ state, reply.stored = some state ∧
      IsGreatest {s | Qualifies result.2.states latencies latency s} state)

/-- The frequency is in the list, and the performance state is the one that its first index maps to. -/
def PerfStateRight (freq : Binary64) : GetReply Int × StateTable Binary64 → Prop :=
  QueryRight fun freqs states state =>
    ∃ i : ℕ, IsLeast {i | ∃ f, freqs[i]? = some f ∧ freq.feq f = true} i ∧ LeastState states i state

section Maps

variable {num index : Int} {states : List Int}

theorem leastState_first_at_least {i : ℕ} (h : first_at_least states index = some i) : LeastState states index i := by
  obtain ⟨hi, hfound, hbefore⟩ := first_at_least_spec h
  refine ⟨⟨states[i], map_state_eq_some.mpr ⟨Int.natCast_nonneg i, List.getElem?_eq_getElem hi⟩, hfound⟩, ?_⟩
  rintro s ⟨x, hx, hle⟩
  obtain ⟨hpos, hlookup⟩ := map_state_eq_some.mp hx
  obtain ⟨hs, rfl⟩ := List.getElem?_eq_some_iff.mp hlookup
  by_contra hlt
  exact absurd hle (Int.not_le.mpr (hbefore s.toNat (by omega)))

/-- An index below the number of entries maps to a state. -/
theorem map_index_leastState (hnum : 1 ≤ num) (hindex : index < num) :
    map_index (init_state_table num) index ≠ -1 ∧
      LeastState (init_state_table num) index (map_index (init_state_table num) index) := by
  obtain ⟨i, hfirst, hmap⟩ := first_at_least_init hnum hindex
  rw [hmap]
  exact ⟨by omega, leastState_first_at_least hfirst⟩

/-- An index that maps to a state is below the number of entries. -/
theorem LeastState.lt_num {state : Int} (hnum : 1 ≤ num) (h : LeastState (init_state_table num) index state) :
    index < num := by
  obtain ⟨⟨x, hx, hle⟩, _⟩ := h
  obtain ⟨_, hs, rfl⟩ := map_state_init hx
  exact lt_of_le_of_lt hle (init_state_table_mem hnum _ (List.getElem_mem hs)).2

/-- A state of the table stands for an entry of an array of that length. -/
theorem map_state_entry {α : Type} {values : List α} {state : Int} (hpos : 1 ≤ (values.length : Int))
    (hstate : 0 ≤ state) (hlt : state < 5) :
    ∃ (c : ℕ) (hc : c < values.length), map_state (init_state_table values.length) state = some (c : Int) ∧
      ∀ num, entry_at (some (values, num)) c = some values[c] := by
  obtain ⟨x, hx, hxpos, hxlt⟩ := (state_maps_agree hpos).in_range state hstate hlt
  lift x to ℕ using hxpos
  have hc : x < values.length := by omega
  refine ⟨x, hc, hx, fun num => ?_⟩
  simp [entry_at, hc]

end Maps

theorem PWR_RET_FAILURE_ne_SUCCESS : PWR_RET_FAILURE ≠ PWR_RET_SUCCESS := by decide

/-- What is stored of a state that is found, or not. -/
def stored_state (tmpret : Int) : Option Int := if tmpret = -1 then none else some tmpret

theorem HandsOver.array_eq {α : Type} {init_states : Int → List Int} {result : InitReply α × StateTable α}
    {values : List α} (h : HandsOver init_states result values) : result.1.array = some values := by
  rw [InitReply.array, h.handed, Option.map_some]

theorem get_state_of_failure {status : Int} (h : status ≠ PWR_RET_SUCCESS) (tmpret : Int) :
    get_state status tmpret = { status } := if_pos h

/-- Once a value is read the status is a success, with or without a state. -/
theorem get_state_of_success {status : Int} (h : status = PWR_RET_SUCCESS) (tmpret : Int) :
    get_state status tmpret = { status := PWR_RET_SUCCESS, stored := stored_state tmpret } := by
  rw [get_state, if_neg (not_not.mpr h), stored_state, h]
  split_ifs
  · rfl
  · rfl

/-- A query is right exactly if the initialisation or the reading fails, or there is an array
that meets the condition for the state to be found. -/
theorem query_right_iff {α : Type} {init_states : Int → List Int} {place : Int → ℕ → ℕ} {looks : List (Lookups α)}
    {look : Lookups α} {t : StateTable α} {status : Int} {tmpret : InitReply α → List Int → Int}
    {Found : List α → List Int → Int → Prop} {cond : List α → Prop} (hs : Consistent init_states place looks t)
    (hcond : ∀ values, HandsOver init_states (init_values init_states place look t) values →
      ((∃ state, stored_state (tmpret (init_values init_states place look t).1
          (init_values init_states place look t).2.states) = some state ∧
        Found values (init_values init_states place look t).2.states state) ↔ cond values)) :
    QueryRight Found (after_init (init_values init_states place look t) { status := PWR_RET_FAILURE }
        fun reply states => get_state status (tmpret reply states)) ↔
      (init_values init_states place look t).1.retval ≠ PWR_RET_SUCCESS ∨ status ≠ PWR_RET_SUCCESS ∨
        ∃ values, (init_values init_states place look t).1.array = some values ∧ cond values := by
  rw [QueryRight]
  by_cases hinit : (init_values init_states place look t).1.retval ≠ PWR_RET_SUCCESS
  · rw [after_init_of_failure hinit]
    exact iff_of_true (fun hsuccess => absurd hsuccess PWR_RET_FAILURE_ne_SUCCESS) (Or.inl hinit)
  rw [or_iff_right hinit, after_init_of_success (not_not.mp hinit)]
  by_cases hread : status ≠ PWR_RET_SUCCESS
  · rw [get_state_of_failure hread]
    exact iff_of_true (fun hsuccess => absurd hsuccess hread) (Or.inl hread)
  rw [or_iff_right hread, get_state_of_success (not_not.mp hread), forall_prop_of_true rfl]
  obtain hfail | ⟨_, hreply, hnone⟩ | ⟨values, hover⟩ := init_values_outcomes hs look
  · exact absurd hfail hinit
  · refine iff_of_false ?_ ?_
    · rintro ⟨values, hsome, _⟩
      rw [hnone] at hsome
      cases hsome
    · rintro ⟨values, harray, _⟩
      rw [hreply] at harray
      cases harray
  · simp only [hover.published, hover.array_eq, Option.some.injEq, exists_eq_left']
    exact hcond values hover

section Sleep

variable {looks : List (Lookups UInt64)} {look : Lookups UInt64} {limit : Int × UInt64} {t : StateTable UInt64}

/-- The sleep state is right exactly if the initialisation or the reading of the limit fails, or
the limit is one of the C-states. -/
theorem PWR_GetSleepState_right_iff (hs : Consistent init_ss_to_cs (fun _ i => i) looks t) :
    SleepStateRight limit.2 (PWR_GetSleepState look limit t) ↔
      (init_cstate_limits look t).1.retval ≠ PWR_RET_SUCCESS ∨ limit.1 ≠ PWR_RET_SUCCESS ∨
        ∃ latencies, (init_cstate_limits look t).1.array = some latencies ∧ limit.2.toNat < latencies.length := by
  apply query_right_iff hs
  intro latencies hover
  rw [hover.states]
  constructor
  · rintro ⟨state, _, hleast⟩
    have hlt := LeastState.lt_num hover.pos hleast
    omega
  · intro hlt
    have hval : int_of_uint64 limit.2 = limit.2.toNat := int_of_uint64_eq (lt_trans (by omega) hover.lt)
    obtain ⟨hfound, hleast⟩ := @map_index_leastState _ limit.2.toNat hover.pos (by omega)
    refine ⟨_, ?_, hleast⟩
    rw [hval]
    exact if_neg hfound

/-- The loop ends at the deepest state below a number that qualifies, or at -1. -/
theorem recommend_loop_spec {latencies : List UInt64} {num : Int} (hpos : 1 ≤ (latencies.length : Int))
    (latency : UInt64) (n : ℕ) (hn : n ≤ 5) :
    (recommend_loop (init_ss_to_cs latencies.length) (some (latencies, num)) latency n = some (-1) ∧
      ∀ s < (n : Int), ¬Qualifies (init_ss_to_cs latencies.length) latencies latency s) ∨
    ∃ state, recommend_loop (init_ss_to_cs latencies.length) (some (latencies, num)) latency n = some state ∧
      IsGreatest {s | s < (n : Int) ∧ Qualifies (init_ss_to_cs latencies.length) latencies latency s} state := by
  induction n with
  | zero =>
    refine Or.inl ⟨rfl, fun s hs => ?_⟩
    rintro ⟨c, hc, _⟩
    exact absurd (map_state_eq_some.mp hc).1 (Int.not_le.mpr hs)
  | succ n ih =>
    obtain ⟨c, hc, hmap, hentry⟩ := map_state_entry hpos (Int.natCast_nonneg n) (by omega)
    have hqualifies : Qualifies (init_ss_to_cs latencies.length) latencies latency n ↔ latencies[c] ≤ latency := by
      constructor
      · rintro ⟨c', hc', entry, hlookup, hle⟩
        have hsame : (c' : Int) = c := Option.some.inj (hc'.symm.trans hmap)
        obtain rfl : c' = c := by omega
        rw [List.getElem?_eq_getElem hc, Option.some.injEq] at hlookup
        rwa [hlookup]
      · exact fun hle => ⟨c, hmap, latencies[c], List.getElem?_eq_getElem hc, hle⟩
    rw [recommend_loop, show map_ss_to_cs (init_ss_to_cs latencies.length) n = some (c : Int) from hmap]
    dsimp only
    rw [if_neg (by omega), hentry]
    dsimp only
    by_cases hle : latencies[c] ≤ latency
    · rw [if_pos hle]
      exact Or.inr ⟨n, rfl, ⟨by omega, hqualifies.mpr hle⟩, fun s hs => Int.le_of_lt_add_one (by exact_mod_cast hs.1)⟩
    · rw [if_neg hle]
      -- the state itself does not qualify, so it may be left out
      have hbelow (s : Int) (hs : s < ((n + 1 : ℕ) : Int))
          (hq : Qualifies (init_ss_to_cs latencies.length) latencies latency s) : s < (n : Int) := by
        have hne : s ≠ n := by
          rintro rfl
          exact hle (hqualifies.mp hq)
        omega
      obtain ⟨hloop, hnone⟩ | ⟨state, hloop, ⟨hlt, hstate⟩, hgreatest⟩ := ih (by omega)
      · exact Or.inl ⟨hloop, fun s hs hq => hnone s (hbelow s hs hq) hq⟩
      · exact Or.inr ⟨state, hloop, ⟨by omega, hstate⟩, fun s hs => hgreatest ⟨hbelow s hs.1 hs.2, hs.2⟩⟩

/-- Only the states of the table qualify. -/
theorem Qualifies.lt {latencies : List UInt64} {latency : UInt64} {num state : Int}
    (h : Qualifies (init_ss_to_cs num) latencies latency state) : state < 5 := by
  obtain ⟨c, hc, _⟩ := h
  obtain ⟨hpos, hs, _⟩ := map_state_init hc
  rw [length_init_state_table] at hs
  omega

/-- A recommendation is right exactly if the initialisation fails or some state qualifies. -/
theorem PWR_RecommendSleepState_right_iff (hs : Consistent init_ss_to_cs (fun _ i => i) looks t) (latency : UInt64) :
    RecommendationRight latency (PWR_RecommendSleepState look t latency) ↔
      (init_cstate_limits look t).1.retval ≠ PWR_RET_SUCCESS ∨
        ∃ latencies, (init_cstate_limits look t).1.array = some latencies ∧
          ∃ state, Qualifies (init_ss_to_cs latencies.length) latencies latency state := by
  by_cases hfail : (init_cstate_limits look t).1.retval ≠ PWR_RET_SUCCESS
  · rw [PWR_RecommendSleepState, after_init_of_failure hfail]
    exact iff_of_true ⟨_, rfl, fun hsuccess => absurd hsuccess PWR_RET_FAILURE_ne_SUCCESS⟩ (Or.inl hfail)
  rw [or_iff_right hfail, PWR_RecommendSleepState, after_init_of_success (not_not.mp hfail), RecommendationRight]
  dsimp only
  obtain hretval | ⟨_, hreply, hnone⟩ | ⟨latencies, hover⟩ := init_values_outcomes hs look
  · exact absurd hretval hfail
  · rw [← init_cstate_limits] at hreply hnone
    refine iff_of_false ?_ ?_
    · rintro ⟨reply, hstored, hright⟩
      obtain ⟨i, _, rfl⟩ := Option.map_eq_some_iff.mp hstored
      obtain ⟨latencies, hsome, _⟩ := hright rfl
      rw [hnone] at hsome
      cases hsome
    · rintro ⟨latencies, harray, _⟩
      rw [hreply] at harray
      cases harray
  · rw [← init_cstate_limits] at hover
    rw [hover.array_eq, hover.handed, hover.published, hover.states]
    simp only [Option.some.injEq, exists_eq_left']
    obtain ⟨hloop, hnone⟩ | ⟨state, hloop, ⟨_, hstate⟩, hgreatest⟩ :=
      recommend_loop_spec hover.pos latency PWR_NUM_SLEEP_STATES (Nat.le_refl 5)
    · rw [hloop]
      refine iff_of_false ?_ fun ⟨state, hstate⟩ => hnone state hstate.lt hstate
      rintro ⟨reply, hstored, hright⟩
      obtain rfl := Option.some.inj hstored
      obtain ⟨state, _, hstate, _⟩ := hright rfl
      exact hnone state hstate.lt hstate
    · rw [hloop]
      refine iff_of_true ⟨_, rfl, fun _ => ⟨state, rfl, hstate, fun s hs => hgreatest ⟨hs.lt, hs⟩⟩⟩ ⟨state, hstate⟩

end Sleep

section Perf

variable {looks : List (Lookups Binary64)} {look : Lookups Binary64} {current : Int × Binary64}
  {t : StateTable Binary64}

/-- A frequency of the list is found at its first index. -/
theorem find_freq_spec {freqs : List Binary64} {freq f : Binary64} (num : Int) (hmem : f ∈ freqs)
    (hequal : freq.feq f = true) :
    ∃ i : ℕ, find_freq (some (freqs, num)) freq = i ∧ IsLeast {i | ∃ f, freqs[i]? = some f ∧ freq.feq f = true} i := by
  rw [find_freq]
  cases hfind : freqs.findIdx? fun f => freq.feq f with
  | none =>
    have hne := List.findIdx?_eq_none_iff.mp hfind f hmem
    rw [hequal] at hne
    cases hne
  | some i =>
    obtain ⟨hi, hfound, hbefore⟩ := List.findIdx?_eq_some_iff_getElem.mp hfind
    refine ⟨i, rfl, ⟨freqs[i], List.getElem?_eq_getElem hi, hfound⟩, ?_⟩
    rintro j ⟨f, hlookup, hj⟩
    obtain ⟨hlt, rfl⟩ := List.getElem?_eq_some_iff.mp hlookup
    by_contra hearlier
    exact hbefore j (Nat.lt_of_not_le hearlier) hj

/-- The performance state is right exactly if the initialisation or the reading of the frequency
fails, or the frequency is in the list. -/
theorem PWR_GetPerfState_right_iff
    (hs : Consistent init_ps_to_freq (fun num_freqs i => (num_freqs - i - 1).toNat) looks t) :
    PerfStateRight current.2 (PWR_GetPerfState look current t) ↔
      (init_freqs look t).1.retval ≠ PWR_RET_SUCCESS ∨ current.1 ≠ PWR_RET_SUCCESS ∨
        ∃ freqs, (init_freqs look t).1.array = some freqs ∧ ∃ f ∈ freqs, current.2.feq f = true := by
  apply query_right_iff hs
  intro freqs hover
  rw [hover.handed, hover.states]
  constructor
  · rintro ⟨state, _, i, ⟨⟨f, hlookup, hequal⟩, _⟩, _⟩
    exact ⟨f, List.mem_of_getElem? hlookup, hequal⟩
  · rintro ⟨f, hmem, hequal⟩
    obtain ⟨i, hfind, hleast⟩ := find_freq_spec freqs.length hmem hequal
    have hlt : i < freqs.length := by
      obtain ⟨⟨f, hlookup, _⟩, _⟩ := hleast
      exact (List.getElem?_eq_some_iff.mp hlookup).1
    obtain ⟨hfound, hstate⟩ := @map_index_leastState _ i hover.pos (by omega)
    refine ⟨_, ?_, i, hleast, hstate⟩
    rw [hfind]
    exact if_neg hfound

end Perf

/-- Whatever an application called before, the queries are right exactly where the
initialisation or the reading fails, or what is asked for is there: a limit that is one of the
C-states, a state with a latency that is short enough, a frequency of the list. -/
theorem state_queries_right_iff (calls : List AppCall) :
    (∀ (look : Lookups UInt64) (limit : Int × UInt64),
      SleepStateRight limit.2 (PWR_GetSleepState look limit (run_app calls).cstates) ↔
        (init_cstate_limits look (run_app calls).cstates).1.retval ≠ PWR_RET_SUCCESS ∨ limit.1 ≠ PWR_RET_SUCCESS ∨
          ∃ latencies, (init_cstate_limits look (run_app calls).cstates).1.array = some latencies ∧
            limit.2.toNat < latencies.length) ∧
    (∀ (look : Lookups UInt64) (latency : UInt64),
      RecommendationRight latency (PWR_RecommendSleepState look (run_app calls).cstates latency) ↔
        (init_cstate_limits look (run_app calls).cstates).1.retval ≠ PWR_RET_SUCCESS ∨
          ∃ latencies, (init_cstate_limits look (run_app calls).cstates).1.array = some latencies ∧
            ∃ state, Qualifies (init_ss_to_cs latencies.length) latencies latency state) ∧
    (∀ (look : Lookups Binary64) (current : Int × Binary64),
      PerfStateRight current.2 (PWR_GetPerfState look current (run_app calls).freqs) ↔
        (init_freqs look (run_app calls).freqs).1.retval ≠ PWR_RET_SUCCESS ∨ current.1 ≠ PWR_RET_SUCCESS ∨
          ∃ freqs, (init_freqs look (run_app calls).freqs).1.array = some freqs ∧
            ∃ f ∈ freqs, current.2.feq f = true) :=
  have hs := run_app_consistent calls
  ⟨fun _ _ => PWR_GetSleepState_right_iff hs.cstates, fun _ latency => PWR_RecommendSleepState_right_iff hs.cstates latency,
    fun _ _ => PWR_GetPerfState_right_iff hs.freqs⟩

/-- Two C-states with latencies of 1 and 70. -/
def look_cstates : Lookups UInt64 :=
  ⟨(PWR_RET_SUCCESS, 2), fun i => (PWR_RET_SUCCESS, if i = 0 then 1 else 70)⟩

/-- Two frequencies, of 1.2 and 2.0 GHz. -/
def look_freqs : Lookups Binary64 :=
  ⟨(PWR_RET_SUCCESS, 2), fun i => (PWR_RET_SUCCESS, if i = 0 then ⟨0x41D1E1A300000000⟩ else ⟨0x41DDCD6500000000⟩)⟩

/-- A current frequency of 1.5 GHz is said to be the fastest one, a limit of 5 is a success
without a state, and no latency is short enough for the state -1. -/
theorem absent_values_succeed :
    let perf := PWR_GetPerfState look_freqs (PWR_RET_SUCCESS, ⟨0x41D65A0BC0000000⟩) {}
    let sleep := PWR_GetSleepState look_cstates (PWR_RET_SUCCESS, 5) {}
    let recommended := PWR_RecommendSleepState look_cstates {} 0
    (perf.1 = { status := PWR_RET_SUCCESS, stored := some 0 } ∧ ¬PerfStateRight ⟨0x41D65A0BC0000000⟩ perf) ∧
    (sleep.1 = { status := PWR_RET_SUCCESS } ∧ ¬SleepStateRight 5 sleep) ∧
    (recommended.1 = some { status := PWR_RET_SUCCESS, stored := some (-1) } ∧ ¬RecommendationRight 0 recommended) := by
  intro perf sleep recommended
  refine ⟨⟨by decide +kernel, fun hright => ?_⟩, ⟨by decide +kernel, fun hright => ?_⟩,
    ⟨by decide +kernel, fun hright => ?_⟩⟩
  · obtain ⟨freqs, hvalues, state, _, i, ⟨⟨f, hlookup, hequal⟩, _⟩, _⟩ := hright (by decide +kernel)
    have hfreqs : perf.2.values = some [⟨0x41DDCD6500000000⟩, ⟨0x41D1E1A300000000⟩] := by decide +kernel
    obtain rfl := Option.some.inj (hfreqs.symm.trans hvalues)
    have hmem := List.mem_of_getElem? hlookup
    have hdiffer : ∀ f ∈ [Binary64.mk 0x41DDCD6500000000, ⟨0x41D1E1A300000000⟩],
        Binary64.feq ⟨0x41D65A0BC0000000⟩ f = false := by decide
    rw [hdiffer f hmem] at hequal
    cases hequal
  · obtain ⟨_, _, state, hstored, _⟩ := hright (by decide +kernel)
    have hnone : sleep.1.stored = none := by decide +kernel
    rw [hnone] at hstored
    cases hstored
  · obtain ⟨reply, hreply, hright⟩ := hright
    have hminus : recommended.1 = some { status := PWR_RET_SUCCESS, stored := some (-1) } := by decide +kernel
    obtain rfl := Option.some.inj (hminus.symm.trans hreply)
    obtain ⟨_, _, state, hstored, ⟨c, hc, _⟩, _⟩ := hright rfl
    obtain rfl := Option.some.inj hstored
    exact absurd (map_state_eq_some.mp hc).1 (by decide)

end pwrapi.cpudev
