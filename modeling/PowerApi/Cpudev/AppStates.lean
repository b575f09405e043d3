import PowerApi.Common.Gov
import PowerApi.Cpudev.Loading

open AscendingTable Execution

namespace pwrapi.cpudev

/-- An attribute that is set, with the value it is set to. -/
inductive AttrSet where
  | CSTATE_LIMIT (cstate : UInt64)
  | GOV (gov : UInt64)
  | FREQ_REQ (freq : Binary64)
  deriving DecidableEq, Repr

/-- What a call that asks for a state or a latency returns, and the value that it stores. -/
structure GetReply (α : Type) where
  status : Int
  stored : Option α := none
  deriving DecidableEq, Repr

/-- What a call that sets a state returns, and the attributes that it sets, in order. -/
structure SetReply where
  status : Int
  sets : List AttrSet := []
  deriving DecidableEq, Repr

section Steps

variable {α ρ : Type}

/-- A call that begins with an initialisation, which hands over the array and leaves the table
of states, and fails if that fails. -/
def after_init (result : InitReply α × StateTable α) (failed : ρ) (rest : InitReply α → List Int → ρ) :
    ρ × StateTable α :=
  match result with
  | (reply, t) => (if reply.retval ≠ PWR_RET_SUCCESS then failed else rest reply t.states, t)

/-- A state is stored that is mapped from what was read with the given status. -/
def get_state (status tmpret : Int) : GetReply Int :=
  if status ≠ PWR_RET_SUCCESS then { status }
  -- the status is still the one of the reading
  else if tmpret = -1 then { status }
  else { status := PWR_RET_SUCCESS, stored := some tmpret }

/-- Something is done with the entry that a state stands for, if there is one. `none` where the
table is read outside its bounds. -/
def with_entry (mapped : Option Int) (failed : ρ) (rest : Int → Option ρ) : Option ρ :=
  match mapped with
  | none => none
  | some entry => if entry = -1 then some failed else rest entry

/-- An entry of the array that is handed over. `none` where it is read outside its bounds, or
there is none. -/
def entry_at (handed : Option (List α × Int)) (index : Int) : Option α :=
  handed.bind fun (values, _) => if 0 ≤ index then values[index.toNat]? else none

end Steps

section Sleep

-- `limit` is the status and the value of the C-state limit when it is read, `set` the status
-- of setting an attribute

variable (look : Lookups UInt64) (limit : Int × UInt64) (set : AttrSet → Int) (t : StateTable UInt64)

def PWR_GetSleepState : GetReply Int × StateTable UInt64 :=
  after_init (init_cstate_limits look t) { status := PWR_RET_FAILURE } fun _ states =>
    get_state limit.1 (map_cs_to_ss states (int_of_uint64 limit.2))

def PWR_SetSleepStateLimit (sstate : Int) : Option SetReply × StateTable UInt64 :=
  after_init (init_cstate_limits look t) (some { status := PWR_RET_FAILURE }) fun _ states =>
    with_entry (map_ss_to_cs states sstate) { status := PWR_RET_FAILURE } fun cstate =>
      let attr := AttrSet.CSTATE_LIMIT (.ofInt cstate)
      some { status := set attr, sets := [attr] }

def PWR_WakeUpLatency (sstate : Int) : Option (GetReply UInt64) × StateTable UInt64 :=
  after_init (init_cstate_limits look t) (some { status := PWR_RET_FAILURE }) fun reply states =>
    with_entry (map_ss_to_cs states sstate) { status := PWR_RET_FAILURE } fun cstate =>
      (entry_at reply.handed cstate).map fun latency => { status := PWR_RET_SUCCESS, stored := some latency }

/-- The loop of `PWR_RecommendSleepState` over the states below a number, from the deepest
one: the one it ends at. -/
def recommend_loop (states : List Int) (handed : Option (List UInt64 × Int)) (latency : UInt64) : ℕ → Option Int
  | 0 => some (-1)
  | i + 1 =>
    match map_ss_to_cs states i with
    | none => none
    | some cstate =>
      if cstate = -1 then recommend_loop states handed latency i
      else
        match entry_at handed cstate with
        | none => none
        | some entry => if entry ≤ latency then some i else recommend_loop states handed latency i

def PWR_RecommendSleepState (latency : UInt64) : Option (GetReply Int) × StateTable UInt64 :=
  after_init (init_cstate_limits look t) (some { status := PWR_RET_FAILURE }) fun reply states =>
    (recommend_loop states reply.handed latency PWR_NUM_SLEEP_STATES).map fun i =>
      { status := PWR_RET_SUCCESS, stored := some i }

end Sleep

section Perf

variable (look : Lookups Binary64) (current : Int × Binary64) (set : AttrSet → Int) (t : StateTable Binary64)

/-- The index of the first frequency that equals the given one, or -1. -/
def find_freq (handed : Option (List Binary64 × Int)) (freq : Binary64) : Int :=
  match handed with
  | none => -1
  | some (freqs, _) =>
    match freqs.findIdx? fun f => freq.feq f with
    | none => -1
    | some i => i

def PWR_GetPerfState : GetReply Int × StateTable Binary64 :=
  after_init (init_freqs look t) { status := PWR_RET_FAILURE } fun reply states =>
    get_state current.1 (map_freq_to_ps states (find_freq reply.handed current.2))

def PWR_SetPerfState (pstate : Int) : Option SetReply × StateTable Binary64 :=
  after_init (init_freqs look t) (some { status := PWR_RET_FAILURE }) fun reply states =>
    with_entry (map_ps_to_freq states pstate) { status := PWR_RET_FAILURE } fun freq_idx =>
      let gov := AttrSet.GOV PwrAttrGov.LINUX_USERSPACE.ivalue
      if set gov ≠ PWR_RET_SUCCESS then some { status := set gov, sets := [gov] }
      else
        (entry_at reply.handed freq_idx).map fun freq =>
          let attr := AttrSet.FREQ_REQ freq
          { status := set attr, sets := [gov, attr] }

end Perf

section Calls

/-- The calls of an application about sleep and performance states, with the outcome of what
each of them looks up, reads and sets. -/
inductive AppCall where
  | PWR_GetSleepState (look : Lookups UInt64) (limit : Int × UInt64)
  | PWR_SetSleepStateLimit (look : Lookups UInt64) (set : AttrSet → Int) (sstate : Int)
  | PWR_WakeUpLatency (look : Lookups UInt64) (sstate : Int)
  | PWR_RecommendSleepState (look : Lookups UInt64) (latency : UInt64)
  | PWR_GetPerfState (look : Lookups Binary64) (current : Int × Binary64)
  | PWR_SetPerfState (look : Lookups Binary64) (set : AttrSet → Int) (pstate : Int)

/-- A call leaves its table of C-states. -/
def Cpudev.with_cstates (s : Cpudev) (look : Lookups UInt64) (cstates : StateTable UInt64) : Cpudev :=
  { s with cstates, cstate_lookups := look :: s.cstate_lookups }

/-- A call leaves its table of frequencies. -/
def Cpudev.with_freqs (s : Cpudev) (look : Lookups Binary64) (freqs : StateTable Binary64) : Cpudev :=
  { s with freqs, freq_lookups := look :: s.freq_lookups }

/-- The static variables after a call. -/
def Cpudev.after (s : Cpudev) : AppCall → Cpudev
  | .PWR_GetSleepState look limit => s.with_cstates look (cpudev.PWR_GetSleepState look limit s.cstates).2
  | .PWR_SetSleepStateLimit look set sstate =>
    s.with_cstates look (cpudev.PWR_SetSleepStateLimit look set s.cstates sstate).2
  | .PWR_WakeUpLatency look sstate => s.with_cstates look (cpudev.PWR_WakeUpLatency look s.cstates sstate).2
  | .PWR_RecommendSleepState look latency =>
    s.with_cstates look (cpudev.PWR_RecommendSleepState look s.cstates latency).2
  | .PWR_GetPerfState look current => s.with_freqs look (cpudev.PWR_GetPerfState look current s.freqs).2
  | .PWR_SetPerfState look set pstate => s.with_freqs look (cpudev.PWR_SetPerfState look set s.freqs pstate).2

/-- The static variables after some calls. -/
def run_app (calls : List AppCall) : Cpudev := calls.foldl Cpudev.after {}

end Calls

section Outcomes

variable {α ρ : Type} {result : InitReply α × StateTable α} {failed : ρ} {rest : InitReply α → List Int → ρ}

theorem after_init_of_failure (h : result.1.retval ≠ PWR_RET_SUCCESS) :
    after_init result failed rest = (failed, result.2) := by
  rw [after_init, if_pos h]

theorem after_init_of_success (h : result.1.retval = PWR_RET_SUCCESS) :
    after_init result failed rest = (rest result.1 result.2.states, result.2) := by
  rw [after_init, if_neg (not_not.mpr h)]

variable {init_states : Int → List Int} {place : Int → ℕ → ℕ} {looks : List (Lookups α)} {t : StateTable α}

/-- An initialisation succeeds and hands over an array with entries, and the table of states
is the one for its length. -/
structure HandsOver (init_states : Int → List Int) (result : InitReply α × StateTable α) (values : List α) : Prop where
  retval : result.1.retval = PWR_RET_SUCCESS
  handed : result.1.handed = some (values, (values.length : Int))
  published : result.2.values = some values
  states : result.2.states = init_states values.length
  pos : 1 ≤ (values.length : Int)
  lt : (values.length : Int) < 2 ^ 31

theorem int_of_uint64_lt (val : UInt64) : int_of_uint64 val < 2 ^ 31 := by
  have hlt := @Int.bmod_lt (val.toNat : Int) (2 ^ 32) (by decide)
  exact hlt

theorem int_of_uint64_eq {val : UInt64} (h : (val.toNat : Int) < 2 ^ 31) : int_of_uint64 val = val.toNat := by
  apply Int.bmod_eq_of_le
  · omega
  · exact h

/-- An initialisation fails, hands over an array, or succeeds without one. -/
theorem init_values_outcomes (hs : Consistent init_states place looks t) (look : Lookups α) :
    (init_values init_states place look t).1.retval ≠ PWR_RET_SUCCESS ∨
    (¬CountPositive look t ∧ (init_values init_states place look t).1 = { retval := PWR_RET_SUCCESS } ∧
      (init_values init_states place look t).2.values = none) ∨
    ∃ values, HandsOver init_states (init_values init_states place look t) values := by
  have hbound (values : List α) (look : Lookups α) (hloads : Loads place look values) :
      (values.length : Int) < 2 ^ 31 := lt_of_eq_of_lt hloads.length (int_of_uint64_lt look.count.2)
  obtain ⟨values, hvalues, hinit⟩ | ⟨_, reply, t', hinit, hfail, _⟩ | ⟨hnone, hcount, hnum, t', hinit, hnone', _⟩ |
    ⟨_, hnum, values, hloads, hinit⟩ := init_values_cases init_states place look t
  · obtain ⟨_, hnonempty, hnum, hstates, earlier, _, hloads⟩ := hs values hvalues
    have hpos := List.length_pos_iff.mpr hnonempty
    rw [hinit]
    exact Or.inr (Or.inr ⟨values, rfl, by rw [hnum], hvalues, hstates, by omega, hbound values earlier hloads⟩)
  · rw [hinit]
    exact Or.inl hfail
  · rw [hinit]
    exact Or.inr (Or.inl ⟨fun hpos => absurd (hpos hnone hcount) (Int.not_lt.mpr hnum), rfl, hnone'⟩)
  · rw [hinit]
    have hlength := hloads.length
    exact Or.inr (Or.inr ⟨values, rfl, rfl, rfl, rfl, by omega, hbound values look hloads⟩)

end Outcomes

section Invariant

theorem Cpudev.Consistent.with_cstates {s : Cpudev} (hs : s.Consistent) (look : Lookups UInt64) :
    (s.with_cstates look (init_cstate_limits look s.cstates).2).Consistent :=
  ⟨(init_values_right look hs.cstates).1, hs.freqs⟩

theorem Cpudev.Consistent.with_freqs {s : Cpudev} (hs : s.Consistent) (look : Lookups Binary64) :
    (s.with_freqs look (init_freqs look s.freqs).2).Consistent :=
  ⟨hs.cstates, (init_values_right look hs.freqs).1⟩

/-- A call leaves its table as its initialisation does. -/
theorem Cpudev.Consistent.after {s : Cpudev} (hs : s.Consistent) (call : AppCall) : (s.after call).Consistent := by
  cases call with
  | PWR_GetSleepState look limit => exact hs.with_cstates look
  | PWR_SetSleepStateLimit look set sstate => exact hs.with_cstates look
  | PWR_WakeUpLatency look sstate => exact hs.with_cstates look
  | PWR_RecommendSleepState look latency => exact hs.with_cstates look
  | PWR_GetPerfState look current => exact hs.with_freqs look
  | PWR_SetPerfState look set pstate => exact hs.with_freqs look

/-- Whatever an application calls, what is published was loaded and is consistent. -/
theorem run_app_consistent (calls : List AppCall) : (run_app calls).Consistent := by
  suffices h : ∀ s : Cpudev, s.Consistent → (calls.foldl Cpudev.after s).Consistent from
    h {} ⟨fun _ hvalues => absurd hvalues (by simp), fun _ hvalues => absurd hvalues (by simp)⟩
  induction calls with
  | nil => exact fun s hs => hs
  | cons call rest ih => exact fun s hs => ih (s.after call) (hs.after call)

end Invariant

end pwrapi.cpudev
