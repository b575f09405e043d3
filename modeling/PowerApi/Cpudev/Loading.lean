import PowerApi.Cpudev.StateTables
import PowerApi.Lib.Execution

open Execution

namespace pwrapi.cpudev

/-- An `int` that is set from a `uint64_t`. -/
def int_of_uint64 (val : UInt64) : Int := (val.toNat : Int).bmod (2 ^ 32)

/-- What the lookups of a call give, each a status and a value: the number of entries, and
the entries by their index. -/
structure Lookups (α : Type) where
  count : Int × UInt64
  entry : ℕ → Int × α

/-- The static variables of `cstate.c`, or of `freq.c`: the table of states, the array of
latencies or frequencies, and its length. -/
structure StateTable (α : Type) where
  states : List Int := [0, 0, 0, 0, 0]
  values : Option (List α) := none
  num : Int := 0
  deriving DecidableEq, Repr

/-- What a call returns, and the array and the length that it hands over. -/
structure InitReply (α : Type) where
  retval : Int
  handed : Option (List α × Int) := none
  deriving DecidableEq, Repr

section Init

variable {α : Type}

/-- The loop that loads the entries, with what it has loaded. -/
def load_loop (entry : ℕ → Int × α) : ℕ → ℕ → List α → Int × List α
  | 0, _, loaded => (PWR_RET_SUCCESS, loaded)
  | left + 1, i, loaded =>
    match entry i with
    | (retval, val) =>
      if retval ≠ PWR_RET_SUCCESS then (retval, loaded) else load_loop entry left (i + 1) (loaded ++ [val])

/-- What an initialisation does with the number of entries, and the status of its lookup. -/
def init_entries (init_states : Int → List Int) (place : Int → ℕ → ℕ) (entry : ℕ → Int × α) (retval num : Int)
    (t : StateTable α) : InitReply α × StateTable α :=
  -- the status is still that of the lookup
  if num ≤ 0 then ({ retval }, { t with num })
  else
    match load_loop (fun i => entry (place num i)) num.toNat 0 [] with
    | (retval, loaded) =>
      if retval ≠ PWR_RET_SUCCESS then ({ retval }, { states := init_states num, values := none, num := 0 })
      else ({ retval, handed := some (loaded, num) }, { states := init_states num, values := some loaded, num })

/-- The two initialisations, which differ in the tables of states and in the index that an
entry is looked up at. -/
def init_values (init_states : Int → List Int) (place : Int → ℕ → ℕ) (look : Lookups α) (t : StateTable α) :
    InitReply α × StateTable α :=
  match t.values with
  | some values => ({ retval := PWR_RET_SUCCESS, handed := some (values, t.num) }, t)
  | none =>
    if look.count.1 ≠ PWR_RET_SUCCESS then ({ retval := look.count.1 }, { t with num := 0 })
    else init_entries init_states place look.entry look.count.1 (int_of_uint64 look.count.2) t

/-- The latencies, which are stored as `int64_t` and compared as `uint64_t` again. -/
def init_cstate_limits : Lookups UInt64 → StateTable UInt64 → InitReply UInt64 × StateTable UInt64 :=
  init_values init_ss_to_cs fun _ i => i

/-- The frequencies are stored in reverse order. -/
def init_freqs : Lookups Binary64 → StateTable Binary64 → InitReply Binary64 × StateTable Binary64 :=
  init_values init_ps_to_freq fun num_freqs i => (num_freqs - i - 1).toNat

/-- The lookups give all the entries of the array. -/
structure Loads (place : Int → ℕ → ℕ) (look : Lookups α) (values : List α) : Prop where
  count : look.count.1 = PWR_RET_SUCCESS
  length : (values.length : Int) = int_of_uint64 look.count.2
  entries : ∀ (i : ℕ) (hi : i < values.length), look.entry (place values.length i) = (PWR_RET_SUCCESS, values[i])

/-- A published array is not empty, has its length and its table of states, and was loaded
by one of the lookups. -/
structure Published (init_states : Int → List Int) (place : Int → ℕ → ℕ) (looks : List (Lookups α))
    (t : StateTable α) (values : List α) : Prop where
  published : t.values = some values
  nonempty : values ≠ []
  num : t.num = values.length
  states : t.states = init_states values.length
  loaded : ∃ look ∈ looks, Loads place look values

/-- The call returns success exactly if an array is published and handed over with its
length, and leaves nothing published if it does not succeed. -/
structure CallRight (init_states : Int → List Int) (place : Int → ℕ → ℕ) (looks : List (Lookups α))
    (reply : InitReply α) (t : StateTable α) : Prop where
  success : reply.retval = PWR_RET_SUCCESS ↔
    ∃ values, Published init_states place looks t values ∧ reply.handed = some (values, (values.length : Int))
  failure : reply.retval ≠ PWR_RET_SUCCESS → t.values = none

/-- No lookup of a number succeeds with a number that is not positive as an `int`, where
nothing is published. -/
def CountPositive (look : Lookups α) (t : StateTable α) : Prop :=
  t.values = none → look.count.1 = PWR_RET_SUCCESS → 0 < int_of_uint64 look.count.2

/-- What is published was loaded and is consistent. -/
def Consistent (init_states : Int → List Int) (place : Int → ℕ → ℕ) (looks : List (Lookups α)) (t : StateTable α) :
    Prop :=
  ∀ values, t.values = some values → Published init_states place looks t values

variable {init_states : Int → List Int} {place : Int → ℕ → ℕ} {looks : List (Lookups α)} {look : Lookups α}
  {t : StateTable α} {entry : ℕ → Int × α}

/-- The loop succeeds with all the entries, or fails at one of them. -/
theorem load_loop_spec (left i : ℕ) (loaded : List α) :
    (load_loop entry left i loaded).1 ≠ PWR_RET_SUCCESS ∨
      ∃ values, load_loop entry left i loaded = (PWR_RET_SUCCESS, loaded ++ values) ∧ values.length = left ∧
        ∀ (j : ℕ) (hj : j < values.length), entry (i + j) = (PWR_RET_SUCCESS, values[j]) := by
  induction left generalizing i loaded with
  | zero => exact Or.inr ⟨[], by simp [load_loop]⟩
  | succ left ih =>
    rw [load_loop]
    cases hentry : entry i with
    | mk retval val =>
      by_cases hretval : retval = PWR_RET_SUCCESS
      · subst hretval
        simp only [ne_eq, not_true, if_false]
        obtain hfail | ⟨values, hloop, hlength, hvalues⟩ := ih (i + 1) (loaded ++ [val])
        · exact Or.inl hfail
        · refine Or.inr ⟨val :: values, ?_, by rw [List.length_cons, hlength], ?_⟩
          · rw [hloop, List.append_assoc, List.singleton_append]
          · rintro (_ | j) hj
            · exact hentry
            · have hnext := hvalues j (Nat.lt_of_succ_lt_succ hj)
              rw [Nat.add_assoc, Nat.add_comm 1] at hnext
              exact hnext
      · exact Or.inl (by simp [hretval])

theorem init_entries_cases (init_states : Int → List Int) (place : Int → ℕ → ℕ) (entry : ℕ → Int × α) {num : Int}
    (hpos : 0 < num) (retval : Int) (t : StateTable α) :
    (∃ reply t', init_entries init_states place entry retval num t = (reply, t') ∧
      reply.retval ≠ PWR_RET_SUCCESS ∧ t'.values = none) ∨
    ∃ values : List α, (values.length : Int) = num ∧
      (∀ (i : ℕ) (hi : i < values.length), entry (place values.length i) = (PWR_RET_SUCCESS, values[i])) ∧
      init_entries init_states place entry retval num t =
        ({ retval := PWR_RET_SUCCESS, handed := some (values, num) },
          { states := init_states num, values := some values, num }) := by
  unfold init_entries
  rw [if_neg (Int.not_le.mpr hpos)]
  obtain hfail | ⟨values, hloop, hlength, hvalues⟩ :=
    @load_loop_spec _ (fun i => entry (place num i)) num.toNat 0 []
  · generalize load_loop (fun i => entry (place num i)) num.toNat 0 [] = result at hfail
    obtain ⟨retval, loaded⟩ := result
    exact Or.inl ⟨{ retval }, { states := init_states num, values := none, num := 0 }, if_pos hfail, hfail, rfl⟩
  · rw [List.nil_append] at hloop
    have hlen : (values.length : Int) = num := by omega
    refine Or.inr ⟨values, hlen, fun j hj => ?_, ?_⟩
    · have hentry := hvalues j hj
      rwa [Nat.zero_add, ← hlen] at hentry
    · rw [hloop]
      rfl

theorem init_entries_of_nonpos (init_states : Int → List Int) (place : Int → ℕ → ℕ) (entry : ℕ → Int × α) {num : Int}
    (hnum : num ≤ 0) (retval : Int) (t : StateTable α) :
    ∃ t', init_entries init_states place entry retval num t = ({ retval }, t') ∧ t'.values = t.values ∧
      t'.states = t.states :=
  ⟨{ t with num }, if_pos hnum, rfl, rfl⟩

/-- What a call does: it hands over what is published, fails with nothing published, says
success of a number that is not positive, or publishes what it loads. -/
theorem init_values_cases (init_states : Int → List Int) (place : Int → ℕ → ℕ) (look : Lookups α) (t : StateTable α) :
    (∃ values, t.values = some values ∧
      init_values init_states place look t = ({ retval := PWR_RET_SUCCESS, handed := some (values, t.num) }, t)) ∨
    (CountPositive look t ∧ ∃ reply t', init_values init_states place look t = (reply, t') ∧
      reply.retval ≠ PWR_RET_SUCCESS ∧ t'.values = none) ∨
    (t.values = none ∧ look.count.1 = PWR_RET_SUCCESS ∧ int_of_uint64 look.count.2 ≤ 0 ∧
      ∃ t', init_values init_states place look t = ({ retval := PWR_RET_SUCCESS }, t') ∧ t'.values = none ∧
        t'.states = t.states) ∨
    (t.values = none ∧ 0 < int_of_uint64 look.count.2 ∧ ∃ values, Loads place look values ∧
      init_values init_states place look t =
        ({ retval := PWR_RET_SUCCESS, handed := some (values, (values.length : Int)) },
          { states := init_states values.length, values := some values, num := values.length })) := by
  unfold init_values
  cases hvalues : t.values with
  | some values => exact Or.inl ⟨values, rfl, rfl⟩
  | none =>
    refine Or.inr ?_
    dsimp only
    by_cases hcount : look.count.1 = PWR_RET_SUCCESS
    · rw [if_neg (not_not.mpr hcount)]
      by_cases hnum : int_of_uint64 look.count.2 ≤ 0
      · obtain ⟨t', hinit, hnone, hstates⟩ :=
          init_entries_of_nonpos init_states place look.entry hnum look.count.1 t
        rw [hcount] at hinit
        rw [hvalues] at hnone
        exact Or.inr (Or.inl ⟨rfl, hcount, hnum, t', by rw [hcount, hinit], hnone, hstates⟩)
      · obtain hfail | ⟨values, hlength, hentries, hinit⟩ := init_entries_cases init_states place look.entry
          (Int.not_le.mp hnum) look.count.1 t
        · exact Or.inl ⟨fun _ _ => Int.not_le.mp hnum, hfail⟩
        · rw [← hlength] at hinit
          exact Or.inr (Or.inr ⟨rfl, Int.not_le.mp hnum, values, ⟨hcount, hlength, hentries⟩, hlength ▸ hinit⟩)
    · rw [if_pos hcount]
      exact Or.inl ⟨fun _ hsuccess => absurd hsuccess hcount, { retval := look.count.1 },
        { t with values := none, num := 0 }, rfl, hcount, rfl⟩

theorem Published.mono {values : List α} (h : Published init_states place looks t values) (look : Lookups α) :
    Published init_states place (look :: looks) t values := by
  obtain ⟨earlier, hmem, hloads⟩ := h.loaded
  exact ⟨h.published, h.nonempty, h.num, h.states, earlier, List.mem_cons_of_mem look hmem, hloads⟩

/-- A call keeps what is published consistent, and is right exactly if no number is taken
for a success that is not positive. -/
theorem init_values_right (look : Lookups α) (hs : Consistent init_states place looks t) :
    Consistent init_states place (look :: looks) (init_values init_states place look t).2 ∧
      (CallRight init_states place (look :: looks) (init_values init_states place look t).1
        (init_values init_states place look t).2 ↔ CountPositive look t) := by
  obtain ⟨values, hvalues, hinit⟩ | ⟨hcount, reply, t', hinit, hfail, hnone⟩ | ⟨hnone, hcount, hnum, t', hinit, hnone', _⟩ |
    ⟨hnone, hnum, values, hloads, hinit⟩ := init_values_cases init_states place look t
  · rw [hinit]
    have hpublished := (hs values hvalues).mono look
    refine ⟨fun values' hvalues' => (hs values' hvalues').mono look, iff_of_true ⟨?_, fun hne => absurd rfl hne⟩ ?_⟩
    · refine iff_of_true rfl ⟨values, hpublished, ?_⟩
      rw [hpublished.num]
    · intro hnone
      rw [hvalues] at hnone
      cases hnone
  · rw [hinit]
    refine ⟨fun values hvalues => ?_, iff_of_true ⟨iff_of_false hfail ?_, fun _ => hnone⟩ hcount⟩
    · rw [hnone] at hvalues
      cases hvalues
    · rintro ⟨values, hpublished, _⟩
      have hvalues := hpublished.published
      rw [hnone] at hvalues
      cases hvalues
  · rw [hinit]
    have hempty (values : List α) (hvalues : t'.values = some values) : False := by
      rw [hnone'] at hvalues
      cases hvalues
    refine ⟨fun values hvalues => (hempty values hvalues).elim, iff_of_false (fun hright => ?_) fun hpos => ?_⟩
    · obtain ⟨values, hpublished, _⟩ := hright.success.mp rfl
      exact hempty values hpublished.published
    · exact absurd (hpos hnone hcount) (Int.not_lt.mpr hnum)
  · rw [hinit]
    have hlength := hloads.length
    have hnonempty : values ≠ [] := by
      rintro rfl
      rw [List.length_nil] at hlength
      omega
    have hpublished : Published init_states place (look :: looks)
        { states := init_states values.length, values := some values, num := values.length } values :=
      ⟨rfl, hnonempty, rfl, rfl, look, List.mem_cons_self, hloads⟩
    refine ⟨fun values' hvalues' => ?_, iff_of_true ⟨?_, fun hne => absurd rfl hne⟩ fun _ _ => hnum⟩
    · obtain rfl := Option.some.inj hvalues'
      exact hpublished
    · exact iff_of_true rfl ⟨values, hpublished, rfl⟩

end Init

section Runs

/-- The static variables of both files, with the lookups of the calls so far. -/
structure Cpudev where
  cstates : StateTable UInt64 := {}
  freqs : StateTable Binary64 := {}
  cstate_lookups : List (Lookups UInt64) := []
  freq_lookups : List (Lookups Binary64) := []

/-- A call of `init_cstate_limits` or `init_freqs`, with the outcome of its lookups. -/
inductive InitCall where
  | init_cstate_limits (look : Lookups UInt64)
  | init_freqs (look : Lookups Binary64)

/-- What a call returns. -/
abbrev Reply := InitReply UInt64 ⊕ InitReply Binary64

def InitCall.perform (s : Cpudev) : InitCall → Reply × Cpudev
  | .init_cstate_limits look =>
    match cpudev.init_cstate_limits look s.cstates with
    | (reply, cstates) => (.inl reply, { s with cstates, cstate_lookups := look :: s.cstate_lookups })
  | .init_freqs look =>
    match cpudev.init_freqs look s.freqs with
    | (reply, freqs) => (.inr reply, { s with freqs, freq_lookups := look :: s.freq_lookups })

def InitStep (s : Cpudev) (step : InitCall × Reply) (s' : Cpudev) : Prop := step.1.perform s = (step.2, s')

/-- The call is right about its own array. -/
def Cpudev.Right (s : Cpudev) : Reply → Prop
  | .inl reply => CallRight init_ss_to_cs (fun _ i => i) s.cstate_lookups reply s.cstates
  | .inr reply => CallRight init_ps_to_freq (fun num_freqs i => (num_freqs - i - 1).toNat) s.freq_lookups reply s.freqs

/-- No lookup succeeds with a number of entries that is not positive as an `int`. -/
def InitCall.Positive (s : Cpudev) : InitCall → Prop
  | .init_cstate_limits look => CountPositive look s.cstates
  | .init_freqs look => CountPositive look s.freqs

structure Cpudev.Consistent (s : Cpudev) : Prop where
  cstates : cpudev.Consistent init_ss_to_cs (fun _ i => i) s.cstate_lookups s.cstates
  freqs : cpudev.Consistent init_ps_to_freq (fun num_freqs i => (num_freqs - i - 1).toNat) s.freq_lookups s.freqs

theorem init_step {s s' : Cpudev} {step : InitCall × Reply} (hstep : InitStep s step s') (hs : s.Consistent) :
    s'.Consistent ∧ (s'.Right step.2 ↔ step.1.Positive s) := by
  obtain ⟨call, reply⟩ := step
  cases call with
  | init_cstate_limits look =>
    obtain ⟨hconsistent, hright⟩ := init_values_right look hs.cstates
    obtain ⟨rfl, rfl⟩ := Prod.mk.inj hstep
    exact ⟨⟨hconsistent, hs.freqs⟩, hright⟩
  | init_freqs look =>
    obtain ⟨hconsistent, hright⟩ := init_values_right look hs.freqs
    obtain ⟨rfl, rfl⟩ := Prod.mk.inj hstep
    exact ⟨⟨hs.cstates, hconsistent⟩, hright⟩

/-- In every run of initialisations, all calls are right exactly if, where nothing is
published, no lookup of the number succeeds with one that is not positive as an `int`. -/
theorem init_runs_right_iff {run : List ((InitCall × Reply) × Cpudev)} (hrun : EachStep InitStep {} run) :
    EachStep (fun _ step s' => s'.Right step.2) {} run ↔ EachStep (fun s step _ => step.1.Positive s) {} run := by
  have hstart : Cpudev.Consistent {} :=
    ⟨fun _ hvalues => absurd hvalues (by simp), fun _ hvalues => absurd hvalues (by simp)⟩
  refine hrun.iff_of_invariant hstart (fun s step s' hstep hs _ => (init_step hstep hs).1) ?_
  exact fun s step s' hstep hs => (init_step hstep hs).2

/-- Two C-states, of which the second one can be read or not. -/
def two_cstates (second : Int) : InitCall :=
  .init_cstate_limits ⟨(PWR_RET_SUCCESS, 2), fun i => if i = 0 then (PWR_RET_SUCCESS, 1) else (second, 70)⟩

/-- A load that fails at the second entry, and one that does not. -/
def loads_again : List InitCall := [two_cstates PWR_RET_FAILURE, two_cstates PWR_RET_SUCCESS]

def init_run (calls : List InitCall) : List ((InitCall × Reply) × Cpudev) :=
  run_calls (fun call s => some (call.perform s)) calls {}

theorem init_run_steps (calls : List InitCall) : EachStep InitStep {} (init_run calls) :=
  (eachStep_run_calls (fun call s => some (InitCall.perform s call)) {} calls).imp fun _ _ _ h => Option.some.inj h

theorem init_runs_right_loads_again :
    (init_run loads_again).map (fun x => (x.1.2, x.2.cstates.num)) =
      [(.inl { retval := PWR_RET_FAILURE }, 0), (.inl { retval := PWR_RET_SUCCESS, handed := some ([1, 70], 2) }, 2)] ∧
    EachStep (fun _ step s' => s'.Right step.2) {} (init_run loads_again) := by
  refine ⟨by decide +kernel, (init_runs_right_iff (init_run_steps loads_again)).mpr ⟨fun _ _ => ?_, fun _ _ => ?_, trivial⟩⟩
  · decide +kernel
  · decide +kernel

/-- A number of 0 is said to be a success, with nothing published or handed over. -/
theorem zero_cstates_succeed :
    let r := (InitCall.init_cstate_limits ⟨(PWR_RET_SUCCESS, 0), fun _ => (PWR_RET_SUCCESS, 0)⟩).perform {}
    r.1 = .inl { retval := PWR_RET_SUCCESS, handed := none } ∧ r.2.cstates.values = none ∧ ¬r.2.Right r.1 := by
  intro r
  have hreply : r.1 = .inl { retval := PWR_RET_SUCCESS, handed := none } := by decide +kernel
  have hnone : r.2.cstates.values = none := by decide +kernel
  refine ⟨hreply, hnone, fun hright => ?_⟩
  rw [hreply] at hright
  obtain ⟨values, hpublished, _⟩ := hright.success.mp rfl
  have hvalues := hpublished.published
  rw [hnone] at hvalues
  cases hvalues

end Runs

end pwrapi.cpudev
