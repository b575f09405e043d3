import PowerApi.Lib.Execution
import PowerApi.Log.Sound

open Execution

namespace pwrapi.log

variable {cfg : Config} {count : ℕ}

/-- A context that was never initialized. -/
theorem sound_empty : Sound {} := by
  refine ⟨fun _ => ⟨rfl, rfl, rfl, rfl, rfl, rfl, 0, rfl, ?_, ?_, ?_, ?_⟩, fun k hk => ?_,
    fun j td hj => ?_⟩
  · exact fun e he => absurd he List.not_mem_nil
  · exact fun d hd => absurd hd List.not_mem_nil
  · exact fun d hd => absurd hd List.not_mem_nil
  · exact fun r hr => absurd hr List.not_mem_nil
  · cases hk
  · cases hj

theorem sound_initialized (hcount : count ≠ 0) : Sound (initialized cfg count) := by
  obtain ⟨hsound, hup⟩ := @Sound.init cfg _ sound_empty
  exact ⟨fun hnone => absurd hnone hup, fun k hk => ⟨hcount, (hsound.up k hk).2⟩, hsound.stale⟩

/-- Under any order of steps a context meets no freed ring and no null pointer exactly as long as
every thread that resumes may. -/
theorem no_bad_access_iff (hcount : count ≠ 0) {run : List (Action × Outcome)}
    (h : EachStep (Steps cfg) (some (initialized cfg count)) run) :
    (∀ x ∈ run, x.2 ≠ none) ↔
      EachStep (fun o a _ => ∀ s, o = some s → Safe a s) (some (initialized cfg count)) run := by
  have hinit : ∀ s, some (initialized cfg count) = some s → Sound s := by
    rintro s ⟨⟩
    exact sound_initialized hcount
  refine h.forall_iff (I := fun o => ∀ s, o = some s → Sound s) (P := fun o => o ≠ none) hinit
    (Option.some_ne_none _) ?_ ?_
  · intro o a o' hstep hsound s' ho'
    obtain ⟨s, rfl, hp⟩ := Option.bind_eq_some_iff.mp hstep
    obtain ⟨hok, hbad⟩ := (hsound s rfl).perform hp
    by_cases hsafe : Safe a s
    · obtain ⟨s₁, rfl, h₁⟩ := hok hsafe
      cases ho'
      exact h₁
    · rw [hbad hsafe] at ho'
      cases ho'
  · intro o a o' hstep hsound _
    obtain ⟨s, rfl, hp⟩ := Option.bind_eq_some_iff.mp hstep
    obtain ⟨hok, hbad⟩ := (hsound s rfl).perform hp
    constructor
    · rintro hne _ ⟨⟩
      by_contra hsafe
      exact hne (hbad hsafe)
    · intro hsafe
      obtain ⟨s₁, rfl, -⟩ := hok (hsafe s rfl)
      exact Option.some_ne_none s₁

/-- The run that takes the given actions from an initialized context. -/
def context_run (cfg : Config) (count : ℕ) (actions : List Action) : List (Action × Outcome) :=
  run_of (fun a o => o.bind (perform cfg a)) actions (some (initialized cfg count))

theorem eachStep_context_run (actions : List Action) :
    EachStep (Steps cfg) (some (initialized cfg count)) (context_run cfg count actions) :=
  eachStep_run_of _ _ _

/-- Every thread may resume in a run where a rotation, a full drain and a termination follow
each other. -/
theorem no_bad_access_one_message :
    let cfg : Config := { num_rings := 2, ring_size := 4096 }
    let run := context_run cfg 1 [.start 0 true, .call 1 .rotate, .lock 0, .lock 0, .wake 1,
      .call 2 (.message .FAULT 20), .lock 0, .write 0, .lock 0, .call 1 .term, .lock 0, .wake 1,
      .lock 0]
    run.length = 13 ∧
      EachStep (fun o a _ => ∀ s, o = some s → Safe a s) (some (initialized cfg 1)) run := by
  intro cfg run
  refine ⟨by decide +kernel, ?_⟩
  exact (no_bad_access_iff (by decide) (eachStep_context_run _)).mp (by decide +kernel)

/-- `_mtx_pmlog_term` does not keep the write thread from a ring that it is draining: the thread
has popped a message of a locked ring when the context is terminated, and resumes after that. -/
theorem write_thread_uses_freed_ring :
    ¬ ∀ (cfg : Config) (count : ℕ) (run : List (Action × Outcome)), count ≠ 0 →
      EachStep (Steps cfg) (some (initialized cfg count)) run → ∀ x ∈ run, x.2 ≠ none := by
  intro h
  have hrun := h { num_rings := 2, ring_size := 4096 } 1 _ (by decide) (eachStep_context_run
    [.start 0 true, .call 1 .term, .lock 0, .call 2 (.message .FAULT 20), .lock 0, .wake 1,
      .write 0, .lock 0])
  exact absurd hrun (by decide +kernel)

end pwrapi.log
