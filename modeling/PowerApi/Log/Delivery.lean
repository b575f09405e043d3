import PowerApi.Log.Termination

open Execution

namespace pwrapi.log

variable {cfg : Config} {count : ℕ} {s : Context} {a : Action} {o : Outcome}

/-- What happens before termination while threads log and flush, with the log file open. -/
def Logging : Action → Prop
  | .call _ (.message _ _) | .call _ .flush | .wake _ | .lock _ | .write _ => True
  | .start _ opened => opened = true
  | .call _ .init | .call _ .rotate | .call _ .sync | .call _ .term => False

instance : DecidablePred Logging := fun a => by
  cases a with
  | call t c => cases c <;> unfold Logging <;> infer_instance
  | _ => unfold Logging; infer_instance

/-- A context with the one write thread that it was initialized with. -/
structure Logged (s : Context) : Prop where
  sound : Sound s
  data : s.wrthread_data = some 0
  thread : ∃ td, s.td = [td] ∧ (td.pc = .starting ∨ td.logfd = true)
  lost : s.buf.lost = []
  user : ∀ t, (s.user t).logs = true

namespace Logged

theorem of_logs (h : Logged s) {s' : Context} (hsound : Sound s') (hlogs : Logs s s') : Logged s' :=
  ⟨hsound, hlogs.data.trans h.data, hlogs.td ▸ h.thread, hlogs.lost.trans h.lost,
    fun t => hlogs.user t (h.user t)⟩

theorem data_ne_none (h : Logged s) : s.wrthread_data ≠ none :=
  h.data ▸ Option.some_ne_none 0

theorem call (h : Logged s) (t : ℕ) {c : Call} (hc : Logging (.call t c)) :
    ∃ s', log.call cfg t s c = some s' ∧ Logged s' := by
  have hup := h.data_ne_none
  cases c with
  | message type len =>
    obtain ⟨td, htd, -⟩ := h.thread
    show ∃ s', pmlog_message cfg t type len s = some s' ∧ Logged s'
    unfold pmlog_message
    split_ifs
    · exact ⟨s, rfl, h⟩
    · exact ⟨s, rfl, h⟩
    · simp only [h.data, htd, List.getElem?_cons_zero, Option.bind_eq_bind, Option.bind_some]
      obtain ⟨s', hroute, hsound, hlogs⟩ := h.sound.route hup t type (msglen_of len) td
      exact ⟨s', hroute, h.of_logs hsound hlogs⟩
  | flush =>
    unfold log.call
    rw [if_neg hup]
    obtain ⟨s', hflush, hsound, hlogs⟩ := h.sound.with_activering hup t .flush
    exact ⟨s', hflush, h.of_logs hsound hlogs⟩
  | _ => exact absurd hc id

theorem wake (h : Logged s) (t : ℕ) : ∃ s', log.wake t s = some s' ∧ Logged s' := by
  have huser := h.user t
  unfold log.wake
  cases hpc : s.user t with
  | ready => exact ⟨s, rfl, h⟩
  | wrthru_wait msglen =>
    obtain ⟨s', hin, hsound, hlogs⟩ := h.sound.in_wrthruring h.data_ne_none t msglen
    exact ⟨s', hin, h.of_logs hsound hlogs⟩
  | active_wait work =>
    obtain ⟨s', hin, hsound, hlogs⟩ := h.sound.in_activering h.data_ne_none t work
    exact ⟨s', hin, h.of_logs hsound hlogs⟩
  | rotate_wait =>
    rw [hpc] at huser
    cases huser
  | sync_wait next =>
    rw [hpc] at huser
    cases huser

/-- The write thread has the mutex, with its log file open. -/
theorem run_thread (h : Logged s) {td td₁ : ThreadData} (htd : s.td = [td]) (hpc : td₁.pc = td.pc)
    (hterminate : td₁.terminate = td.terminate) (hflight : td.pc.flight = []) (hopen : td₁.logfd = true)
    (hsound : ∀ s', log.run_thread 0 td₁ s = some s' → Sound s') :
    ∃ s', log.run_thread 0 td₁ s = some s' ∧ Logged s' := by
  obtain ⟨-, td₂, normal, wr, idle, lock, htd₂, hterm, hkept⟩ := h.sound.up 0 h.data
  rw [htd] at htd₂
  obtain rfl : td = td₂ := Option.some.inj htd₂
  obtain ⟨td', b', hrun, hframe, -, hlogfd, -⟩ :=
    (hpc ▸ hkept : Kept s.buf normal wr idle lock td₁.pc).write_thread (hterminate.trans hterm)
      (hpc ▸ hflight)
  have hthread : log.run_thread 0 td₁ s = some { s.set_td 0 td' with buf := b' } := by
    rw [log.run_thread, hrun]
    rfl
  refine ⟨_, hthread, hsound _ hthread, h.data, ⟨td', ?_, .inr (hlogfd.trans hopen)⟩,
    hframe.lost.trans h.lost, h.user⟩
  show s.td.set 0 td' = [td']
  rw [htd]
  rfl

/-- The write thread writes the message that it popped. -/
theorem write (h : Logged s) {td : ThreadData} (htd : s.td = [td]) (hopen : td.logfd = true)
    (e : Entry) (pc : WrPc)
    (hsound : Sound { s.set_td 0 { td with pc } with buf := s.buf.write_message td.logfd e }) :
    Logged { s.set_td 0 { td with pc } with buf := s.buf.write_message td.logfd e } := by
  refine ⟨hsound, h.data, ⟨{ td with pc }, ?_, .inr hopen⟩, ?_, h.user⟩
  · show s.td.set 0 { td with pc } = [{ td with pc }]
    rw [htd]
    rfl
  · rw [hopen]
    exact h.lost

theorem perform (h : Logged s) (ha : Logging a) (hp : log.perform cfg a s = some o) :
    ∃ s', o = some s' ∧ Logged s' := by
  obtain ⟨td, htd, hlogfd⟩ := h.thread
  have hzero : ∀ {k : ℕ} {td' : ThreadData}, s.td[k]? = some td' → k = 0 ∧ td' = td := by
    intro k td' hk
    rw [htd, List.getElem?_singleton] at hk
    split_ifs at hk with hk0
    exact ⟨hk0, (Option.some.inj hk).symm⟩
  cases a with
  | call t c =>
    simp only [log.perform] at hp
    split_ifs at hp
    cases hp
    exact h.call t ha
  | wake t =>
    simp only [log.perform] at hp
    split_ifs at hp
    cases hp
    exact h.wake t
  | start k opened =>
    obtain rfl : opened = true := ha
    obtain ⟨td', hk, hp⟩ := Option.bind_eq_some_iff.mp hp
    obtain ⟨rfl, rfl⟩ := hzero hk
    split_ifs at hp with hpc
    cases hp
    obtain ⟨s₁, hrun, hsound⟩ := h.sound.start hk hpc true
    refine h.run_thread htd rfl rfl (by rw [hpc]; rfl) rfl fun s' hs' => ?_
    rw [Option.some.inj (hs'.symm.trans hrun)]
    exact hsound
  | lock k =>
    obtain ⟨hok, -⟩ := h.sound.perform hp
    obtain ⟨td', hk, hp⟩ := Option.bind_eq_some_iff.mp hp
    obtain ⟨rfl, rfl⟩ := hzero hk
    obtain ⟨-, td₂, -, -, -, -, htd₂, hterm, -⟩ := h.sound.up 0 h.data
    obtain rfl : td' = td₂ := Option.some.inj (hk.symm.trans htd₂)
    obtain ⟨s₁, rfl, hsound⟩ := hok fun td hmem r _ => by
      rw [← Option.some.inj (hk.symm.trans hmem)]
      exact hterm
    have hlock : td'.pc.flight = [] ∧ td'.pc ≠ .starting ∧ log.run_thread 0 td' s = some s₁ := by
      cases hpc : td'.pc <;> rw [hpc] at hp <;> first
        | exact ⟨rfl, (by intro h; cases h), Option.some.inj hp⟩
        | cases hp
    obtain ⟨hflight, hstart, hrun⟩ := hlock
    rw [← hrun]
    refine h.run_thread htd rfl rfl hflight (hlogfd.resolve_left hstart) fun s' hs' => ?_
    rw [← Option.some.inj (hrun.symm.trans hs')]
    exact hsound
  | write k =>
    obtain ⟨hok, -⟩ := h.sound.perform hp
    obtain ⟨s₁, rfl, hsound⟩ := hok trivial
    obtain ⟨td', hk, hp⟩ := Option.bind_eq_some_iff.mp hp
    obtain ⟨rfl, rfl⟩ := hzero hk
    refine ⟨s₁, rfl, ?_⟩
    cases hpc : td'.pc with
    | writing r m =>
      rw [hpc] at hp
      cases hp
      exact h.write htd (hlogfd.resolve_left fun h => by rw [hpc] at h; cases h) _ _ hsound
    | writing_wrthru r m =>
      rw [hpc] at hp
      cases hp
      exact h.write htd (hlogfd.resolve_left fun h => by rw [hpc] at h; cases h) _ _ hsound
    | _ => rw [hpc] at hp; cases hp

end Logged

theorem logged_initialized (hcount : count ≠ 0) : Logged (initialized cfg count) :=
  ⟨sound_initialized hcount, rfl, ⟨{}, rfl, .inl rfl⟩, rfl, fun _ => rfl⟩

/-- Before termination every normal ring is in one place, the write-through ring drops nothing,
and of the messages put into a ring those that have left it are each written, about to be
written, or dropped from the active ring, and the others are still in it. -/
theorem logging_delivers (hcount : count ≠ 0) {run : List (Action × Outcome)}
    (h : EachStep (Steps cfg) (some (initialized cfg count)) run)
    (hlogging : ∀ x ∈ run, Logging x.1) :
    ∀ x ∈ run, ∃ s td normal wr idle lock, x.2 = some s ∧ s.td = [td] ∧
      s.buf.rings = normal ++ [wr] ∧
      Placed s.buf normal wr idle lock td.pc.drained ∧
      (s.buf.puts.map (·.msg.id)).Nodup ∧
      (∀ d ∈ s.buf.drops, d.entry.ring ≠ wr ∧ d.state = .ACTIVE ∧ d.entry.msg.id < d.by_) ∧
      ∀ r ∈ normal ++ [wr], ∃ gone,
        in_ring r s.buf.puts = gone ++ s.buf.held r ∧
        (in_ring r (s.buf.file ++ td.pc.flight) ++ in_ring r (s.buf.drops.map Drop.entry)).Perm
          gone ∧
        (in_ring r (s.buf.file ++ td.pc.flight)).Sublist gone := by
  have hlogged : ∀ x ∈ run, ∃ s, x.2 = some s ∧ Logged s := by
    refine (h.and (eachStep_of_actions hlogging)).invariant
      (I := fun o => ∃ s, o = some s ∧ Logged s) ⟨_, rfl, logged_initialized hcount⟩ ?_
    rintro _ a o' ⟨hstep, ha⟩ ⟨s, rfl, hs⟩
    exact hs.perform ha hstep
  intro x hx
  obtain ⟨s, hs, hlogged⟩ := hlogged x hx
  obtain ⟨td, htd, -⟩ := hlogged.thread
  obtain ⟨-, td', normal, wr, idle, lock, htd', -, hkept⟩ := hlogged.sound.up 0 hlogged.data
  rw [htd] at htd'
  obtain rfl : td = td' := Option.some.inj htd'
  have hledger := hkept.ledger
  refine ⟨s, td, normal, wr, idle, lock, hs, htd, hkept.placed.rings, hkept.placed, ?_,
    fun d hd => ⟨hledger.wrthru d hd, hledger.drops d hd⟩, fun r hr => ?_⟩
  · rw [hledger.ids]
    exact List.nodup_range
  · obtain ⟨gone, hputs, hperm, hsub⟩ := hledger.account r (hkept.placed.rings ▸ hr)
    rw [hlogged.lost, in_ring_nil, List.append_nil] at hperm
    exact ⟨gone, hputs, hperm, hsub⟩

/-- Two messages through the write-through ring and one through an active ring that is flushed
reach the file. -/
theorem logging_delivers_three_messages :
    let cfg : Config := { num_rings := 2, ring_size := 4096 }
    let run := context_run cfg 1 [.call 0 (.message .MESSAGE 30), .start 0 true,
      .call 1 (.message .TRACE1 40), .call 2 (.message .MESSAGE 50), .write 0, .lock 0,
      .write 0, .call 1 .flush, .lock 0, .write 0, .lock 0]
    (run.map fun x => x.2.map fun s => s.buf.file.map (·.msg.id)).getLast? =
        some (some [0, 2, 1]) ∧
      ∃ x ∈ run, ∃ s normal wr idle lock drained, x.2 = some s ∧
        Placed s.buf normal wr idle lock drained := by
  intro cfg run
  have hlast : 0 < run.length := by decide +kernel
  obtain ⟨s, td, normal, wr, idle, lock, hs, -, -, hplaced, -⟩ :=
    logging_delivers (by decide) (eachStep_context_run _) (by decide +kernel) run[0]
      (List.getElem_mem hlast)
  exact ⟨by decide +kernel, run[0], List.getElem_mem hlast, s, normal, wr, idle, lock, _, hs,
    hplaced⟩

end pwrapi.log
