import Mathlib.Data.List.Range
import PowerApi.Log.BufferSpec

namespace pwrapi.log

variable {cfg : Config} {s : Context} {b b' : Buffers} {normal : List ℕ} {wr : ℕ}
  {idle lock : List ℕ} {pc : WrPc} {flight : List Entry}

/-- What `_mtx_pmlog_term` leaves: null pointers, and the messages that there have been. -/
structure Down (b : Buffers) : Prop where
  lockqp : b.lockqp = none
  idleqp : b.idleqp = none
  activering : b.activering = none
  wrthruring : b.wrthruring = none
  rings : b.rings = []
  ledger : ∃ wr, Ledger b wr []

/-- A context is down, or its rings are kept by the write thread that it points to. The other
write threads are to terminate and have no pointer that is not dangling. -/
structure Sound (s : Context) : Prop where
  down : s.wrthread_data = none → s.init_count = 0 ∧ Down s.buf
  up : ∀ k, s.wrthread_data = some k → s.init_count ≠ 0 ∧
    ∃ td normal wr idle lock, s.td[k]? = some td ∧ td.terminate = false ∧
      Kept s.buf normal wr idle lock td.pc
  stale : ∀ j td, s.td[j]? = some td → s.wrthread_data ≠ some j →
    td.terminate = true ∧ ∀ r ∈ td.pc.rings, r < s.buf.next ∧ s.buf.ring r = none

section Memory

/-- A ring that is yet to be allocated is in no account. -/
theorem Ledger.no_past {r : ℕ} (h : Ledger b wr flight) (hr : b.next ≤ r) :
    in_ring r b.puts = [] ∧ in_ring r b.file = [] ∧ in_ring r b.lost = [] ∧
      in_ring r (b.drops.map Drop.entry) = [] := by
  have hpast : ∀ e ∈ b.puts ++ b.file ++ b.lost ++ b.drops.map Drop.entry, e.ring ≠ r := by
    intro e he
    have hlt := h.bound e he
    omega
  refine ⟨?_, ?_, ?_, ?_⟩
  · exact in_ring_eq_nil fun e he => hpast e (mem_parts (.inl he))
  · exact in_ring_eq_nil fun e he => hpast e (mem_parts (.inr (.inl he)))
  · exact in_ring_eq_nil fun e he => hpast e (mem_parts (.inr (.inr (.inl he))))
  · exact in_ring_eq_nil fun e he => hpast e (mem_parts (.inr (.inr (.inr he))))

theorem kept_alloc (h : Ledger b wr flight) (hactive : b.activering = none) (n size : ℕ) :
    Kept (b.alloc n size) (List.range' b.next n) (b.next + n) (List.range' b.next n) []
      .starting := by
  have hmem : ∀ r ∈ List.range' b.next n ++ [b.next + n], b.next ≤ r ∧ r < b.next + n + 1 := by
    intro r hr
    rcases List.mem_append.mp hr with hr | hr
    · have := List.mem_range'_1.mp hr
      omega
    · rw [List.mem_singleton.mp hr]
      omega
  have hring : ∀ r ∈ List.range' b.next n, (b.alloc n size).ring r = some ⟨.IDLE, size, []⟩ :=
    fun r hr => if_pos (List.mem_range'_1.mp hr)
  have hwr : (b.alloc n size).ring (b.next + n) = some ⟨.WRTHRU, WRTHRU_SIZE, []⟩ := by
    show (if _ then _ else _) = _
    rw [if_neg (fun h => Nat.lt_irrefl _ h.2), if_pos rfl]
  refine ⟨⟨rfl, rfl, rfl, rfl, ?_, ?_, ?_, ?_, ?_, ?_⟩, ⟨h.ids, ?_, h.drops, ?_, ?_⟩,
    fun r hr => absurd hr List.not_mem_nil⟩
  · rw [List.length_range']
    rfl
  · refine List.nodup_append.mpr ⟨List.nodup_range', List.nodup_singleton _, ?_⟩
    rintro r hr q hq rfl
    have hlt := (List.mem_range'_1.mp hr).2
    rw [List.mem_singleton.mp hq] at hlt
    exact Nat.lt_irrefl _ hlt
  · refine List.Perm.of_eq ?_
    show (places _ b.activering [] []).map Prod.fst = _
    simp [hactive, places, Function.comp_def]
  · intro p hp
    have hp : p ∈ places (List.range' b.next n) b.activering [] [] := hp
    rw [hactive] at hp
    simp only [places, Option.toList_none, List.map_nil, List.append_nil, List.mem_map] at hp
    obtain ⟨r, hr, rfl⟩ := hp
    rw [Buffers.state_of, hring r hr]
    rfl
  · rw [Buffers.state_of, hwr]
    rfl
  · exact fun r hr => (hmem r hr).2
  · intro e he
    have hlt := h.bound e he
    show e.ring < b.next + n + 1
    omega
  · intro d hd
    have hlt := h.bound d.entry (mem_parts (.inr (.inr (.inr (List.mem_map_of_mem hd)))))
    show d.entry.ring ≠ b.next + n
    omega
  · intro r hr
    have hheld : (b.alloc n size).held r = [] := by
      rcases List.mem_append.mp hr with hr | hr
      · exact Kept.held_eq (hring r hr)
      · rw [List.mem_singleton.mp hr]
        exact Kept.held_eq hwr
    obtain ⟨hputs, hfile, hlost, hdrops⟩ := h.no_past (hmem r hr).1
    refine ⟨[], ?_, ?_, ?_⟩
    · rw [hheld]
      exact hputs
    · show (in_ring r (b.file ++ []) ++ in_ring r (b.drops.map _) ++ in_ring r b.lost).Perm []
      rw [List.append_nil, hfile, hdrops, hlost]
      exact List.Perm.refl _
    · show (in_ring r (b.file ++ [])).Sublist []
      rw [List.append_nil, hfile]

theorem ring_alloc {r : ℕ} (hr : r < b.next) (n size : ℕ) :
    (b.alloc n size).ring r = b.ring r := by
  show (if _ then _ else if _ then _ else _) = _
  rw [if_neg (by omega), if_neg (by omega)]

theorem down_free (h : Ledger b wr flight) : Down b.free :=
  ⟨rfl, rfl, rfl, rfl, rfl, wr, h.ids, h.bound, h.drops, h.wrthru,
    fun _ hr => absurd hr List.not_mem_nil⟩

theorem ring_free {r : ℕ} (h : r ∈ b.rings ∨ b.ring r = none) : b.free.ring r = none := by
  show (if _ then _ else _) = _
  split_ifs with hr
  · rfl
  · exact h.resolve_left hr

end Memory

/-- A thread that is in no call, or in one that waits for a ring. -/
def UserPc.logs : UserPc → Bool
  | .ready | .wrthru_wait _ | .active_wait _ => true
  | .rotate_wait | .sync_wait _ => false

/-- A thread logs, or waits to: all write threads stay as they are, and no message is lost. -/
structure Logs (s s' : Context) : Prop where
  data : s'.wrthread_data = s.wrthread_data
  td : s'.td = s.td
  lost : s'.buf.lost = s.buf.lost
  user : ∀ t, (s.user t).logs = true → (s'.user t).logs = true

theorem Logs.of_buf {t : ℕ} {pc : UserPc} (hlost : b'.lost = s.buf.lost) (hpc : pc.logs = true) :
    Logs s (({ s with buf := b' } : Context).set_user t pc) := by
  refine ⟨rfl, rfl, hlost, fun q hq => ?_⟩
  show (Function.update s.user t pc q).logs = true
  rw [Function.update_apply]
  split_ifs
  · exact hpc
  · exact hq

theorem td_set_td {k : ℕ} {td : ThreadData} (hk : s.td[k]? = some td) (td' : ThreadData) (j : ℕ) :
    (s.set_td k td').td[j]? = if j = k then some td' else s.td[j]? := by
  have hlt : k < s.td.length := (List.getElem?_eq_some_iff.mp hk).1
  show (s.td.set k td')[j]? = _
  rw [List.getElem?_set]
  by_cases hjk : j = k
  · rw [if_pos hjk.symm, if_pos hjk, if_pos hlt]
  · rw [if_neg (Ne.symm hjk), if_neg hjk]

namespace Sound

variable {k t : ℕ} {td td' : ThreadData} {s' : Context}

theorem set_user (h : Sound s) (t : ℕ) (pc : UserPc) : Sound (s.set_user t pc) :=
  ⟨h.down, h.up, h.stale⟩

/-- The write thread that the context points to, or its rings, have changed. -/
theorem of_current (h : Sound s) (td' : ThreadData) (hk : s.wrthread_data = some k)
    (hdata : s'.wrthread_data = some k) (hcount : s'.init_count ≠ 0)
    (htd : s'.td[k]? = some td') (hothers : ∀ j, j ≠ k → s'.td[j]? = s.td[j]?)
    (hterminate : td'.terminate = false) (hframe : NoAlloc s.buf s'.buf)
    (hkept : ∃ normal wr idle lock, Kept s'.buf normal wr idle lock td'.pc) : Sound s' := by
  refine ⟨fun hnone => ?_, fun j hj => ?_, fun j td hj hne => ?_⟩
  · rw [hdata] at hnone
    cases hnone
  · obtain rfl : j = k := Option.some.inj (hj.symm.trans hdata)
    obtain ⟨normal, wr, idle, lock, hkept⟩ := hkept
    exact ⟨hcount, td', normal, wr, idle, lock, htd, hterminate, hkept⟩
  · have hjk : j ≠ k := fun heq => hne (heq ▸ hdata)
    obtain ⟨hterm, hrings⟩ := h.stale j td (hothers j hjk ▸ hj)
      (fun heq => hjk (Option.some.inj (heq.symm.trans hk)))
    exact ⟨hterm, fun r hr => ⟨hframe.1 ▸ (hrings r hr).1, hframe.2 r (hrings r hr).2⟩⟩

/-- A write thread gets a flag set that is not `terminate`. -/
theorem set_flags (h : Sound s) (hk : s.td[k]? = some td) (hterminate : td'.terminate = td.terminate)
    (hpc : td'.pc = td.pc) : Sound (s.set_td k td') := by
  refine ⟨h.down, fun j hj => ?_, fun j td₁ hj hne => ?_⟩
  · obtain ⟨hcount, td₁, normal, wr, idle, lock, htd, hterm, hkept⟩ := h.up j hj
    refine ⟨hcount, if j = k then td' else td₁, normal, wr, idle, lock, ?_, ?_, ?_⟩
    · rw [td_set_td hk]
      split_ifs
      · rfl
      · exact htd
    · split_ifs with hjk
      · rw [hterminate, ← hterm]
        rw [hjk, hk] at htd
        rw [Option.some.inj htd]
      · exact hterm
    · split_ifs with hjk
      · rw [hjk, hk] at htd
        rw [hpc, Option.some.inj htd]
        exact hkept
      · exact hkept
  · rw [td_set_td hk] at hj
    split_ifs at hj with hjk
    · cases hj
      rw [hterminate, hpc]
      rw [hjk] at hne
      exact h.stale k td hk hne
    · exact h.stale j td₁ hj hne

/-- A write thread that is to terminate goes on. -/
theorem of_stale (h : Sound s) (hk : s.td[k]? = some td) (hne : s.wrthread_data ≠ some k)
    (hterminate : td'.terminate = true) (hrings : ∀ r ∈ td'.pc.rings, r ∈ td.pc.rings) :
    Sound (s.set_td k td') := by
  refine ⟨h.down, fun j hj => ?_, fun j td₁ hj hne' => ?_⟩
  · obtain ⟨hcount, td₁, normal, wr, idle, lock, htd, hrest⟩ := h.up j hj
    refine ⟨hcount, td₁, normal, wr, idle, lock, ?_, hrest⟩
    rw [td_set_td hk, if_neg (fun hjk : j = k => hne (hjk ▸ hj))]
    exact htd
  · rw [td_set_td hk] at hj
    split_ifs at hj with hjk
    · cases hj
      exact ⟨hterminate, fun r hr => (h.stale k td hk hne).2 r (hrings r hr)⟩
    · exact h.stale j td₁ hj hne'

theorem init (h : Sound s) :
    Sound (s.mtx_pmlog_init cfg) ∧ (s.mtx_pmlog_init cfg).wrthread_data ≠ none := by
  unfold Context.mtx_pmlog_init
  rcases Option.eq_none_or_eq_some s.wrthread_data with hdata | ⟨k, hdata⟩
  case inr =>
    have hcount := (h.up k hdata).1
    have hne : s.wrthread_data ≠ none := hdata ▸ Option.some_ne_none k
    rw [if_pos hcount]
    exact ⟨⟨fun hnone => absurd hnone hne, fun j hj => ⟨Nat.succ_ne_zero _, (h.up j hj).2⟩,
      h.stale⟩, hne⟩
  case inl =>
    obtain ⟨hcount, hdown⟩ := h.down hdata
    obtain ⟨wr, hledger⟩ := hdown.ledger
    rw [if_neg (not_not.mpr hcount)]
    refine ⟨⟨fun hnone => ?_, fun j hj => ?_, fun j td hj hne => ?_⟩, Option.some_ne_none _⟩
    · exact absurd hnone (Option.some_ne_none _)
    · obtain rfl : s.td.length = j := Option.some.inj hj
      refine ⟨Nat.succ_ne_zero _, {}, _, _, _, _, ?_, rfl, kept_alloc hledger hdown.activering _ _⟩
      exact List.getElem?_concat_length
    · have hlt : j < s.td.length := by
        have hj' := (List.getElem?_eq_some_iff.mp hj).1
        simp only [List.length_append, List.length_singleton] at hj'
        have hne' : j ≠ s.td.length := fun heq => hne (congrArg some heq.symm)
        omega
      have hj' : s.td[j]? = some td := by
        rw [← hj]
        exact (List.getElem?_append_left hlt).symm
      obtain ⟨hterm, hrings⟩ := h.stale j td hj' (by rw [hdata]; exact (Option.some_ne_none j).symm)
      refine ⟨hterm, fun r hr => ⟨?_, ?_⟩⟩
      · have hnext := (hrings r hr).1
        show r < s.buf.next + cfg.num_rings + 1
        omega
      · show (s.buf.alloc _ _).ring r = none
        rw [ring_alloc (hrings r hr).1]
        exact (hrings r hr).2

theorem term (h : Sound s) : ∃ s', s.mtx_pmlog_term = some s' ∧ Sound s' := by
  unfold Context.mtx_pmlog_term
  rcases Option.eq_none_or_eq_some s.wrthread_data with hdata | ⟨k, hdata⟩
  case inl =>
    obtain ⟨hcount, hdown⟩ := h.down hdata
    obtain ⟨wr, hledger⟩ := hdown.ledger
    rw [if_neg (fun hand => hand.1 hcount)]
    simp only [hdata, Option.bind_eq_bind, Option.bind_some]
    refine ⟨_, rfl, fun _ => ⟨rfl, down_free hledger⟩, fun j hj => ?_, fun j td hj hne => ?_⟩
    · cases hj
    · obtain ⟨hterm, hrings⟩ := h.stale j td hj (hdata ▸ hne)
      exact ⟨hterm, fun r hr => ⟨(hrings r hr).1, ring_free (.inr (hrings r hr).2)⟩⟩
  case inr =>
    obtain ⟨hcount, td, normal, wr, idle, lock, htd, hterm, hkept⟩ := h.up k hdata
    by_cases hlast : s.init_count - 1 ≠ 0
    · rw [if_pos ⟨hcount, hlast⟩]
      exact ⟨_, rfl, h.of_current td hdata hdata hlast htd (fun _ _ => rfl) hterm (NoAlloc.refl _)
        ⟨normal, wr, idle, lock, hkept⟩⟩
    · rw [if_neg (fun hand => hlast hand.2)]
      simp only [hdata, Option.bind_eq_bind, Option.bind_some, htd]
      refine ⟨_, rfl, fun _ => ⟨rfl, down_free hkept.ledger⟩, fun j hj => ?_, fun j td₁ hj _ => ?_⟩
      · exact absurd hj (Option.some_ne_none j).symm
      · have hj : (({ s with init_count := 0 } : Context).set_td k
            { td with terminate := true }).td[j]? = some td₁ := hj
        rw [@td_set_td { s with init_count := 0 } _ _ htd] at hj
        split_ifs at hj with hjk
        · -- the rings that the thread has pointers to are freed with the others
          cases hj
          refine ⟨rfl, fun r hr => ?_⟩
          have hmem := hkept.pointers r hr
          exact ⟨hkept.placed.below r hmem, ring_free (.inl (hkept.placed.rings ▸ hmem))⟩
        · obtain ⟨hterm, hrings⟩ := h.stale j td₁ hj
            (fun heq => hjk (Option.some.inj (heq.symm.trans hdata)))
          exact ⟨hterm, fun r hr => ⟨(hrings r hr).1, ring_free (.inr (hrings r hr).2)⟩⟩

/-- The rings change under the write thread that the context points to. -/
theorem set_buf (h : Sound s) (hk : s.wrthread_data = some k) (htd : s.td[k]? = some td)
    (hframe : NoAlloc s.buf b') (hkept : Kept b' normal wr idle lock td.pc) :
    Sound { s with buf := b' } := by
  obtain ⟨hcount, td₁, _, _, _, _, htd₁, hterm, -⟩ := h.up k hk
  rw [← Option.some.inj (htd.symm.trans htd₁)] at hterm
  exact h.of_current td hk hk hcount htd (fun _ _ => rfl) hterm hframe ⟨normal, wr, idle, lock, hkept⟩

section Users

/-- A thread goes on with the rings that its use of them left, or waits for one. -/
theorem go_on (h : Sound s) (hk : s.wrthread_data = some k) (htd : s.td[k]? = some td) {out : Option Buffers}
    (hkeeps : ∀ b', out = some b' → (∃ idle' lock', Kept b' normal wr idle' lock' td.pc) ∧ Frame s.buf b')
    (t : ℕ) {wait : UserPc} (hlogs : wait.logs = true) :
    ∃ s', (match out with
      | none => some (s.set_user t wait)
      | some buf => some ({ s with buf }.set_user t .ready)) = some s' ∧ Sound s' ∧ Logs s s' := by
  cases out with
  | none => exact ⟨_, rfl, h.set_user t _, .of_buf rfl hlogs⟩
  | some b' =>
    obtain ⟨⟨idle', lock', hkept'⟩, hframe⟩ := hkeeps b' rfl
    exact ⟨_, rfl, (h.set_buf hk htd hframe.memory hkept').set_user t _, .of_buf hframe.lost rfl⟩

theorem in_wrthruring (h : Sound s) (hup : s.wrthread_data ≠ none) (t msglen : ℕ) :
    ∃ s', s.in_wrthruring t msglen = some s' ∧ Sound s' ∧ Logs s s' := by
  obtain ⟨k, hk⟩ := Option.ne_none_iff_exists'.mp hup
  obtain ⟨-, td, normal, wr, idle, lock, htd, -, hkept⟩ := h.up k hk
  obtain ⟨out, hout, hkeeps⟩ := hkept.use_wrthruring msglen
  rw [Context.in_wrthruring, hout]
  exact h.go_on hk htd hkeeps t rfl

theorem in_activering (h : Sound s) (hup : s.wrthread_data ≠ none) (t : ℕ) (work : Work) :
    ∃ s', s.in_activering t work = some s' ∧ Sound s' ∧ Logs s s' := by
  obtain ⟨k, hk⟩ := Option.ne_none_iff_exists'.mp hup
  obtain ⟨-, td, normal, wr, idle, lock, htd, -, hkept⟩ := h.up k hk
  obtain ⟨out, hout, hkeeps⟩ := hkept.use_activering work
  rw [Context.in_activering, hout]
  exact h.go_on hk htd hkeeps t rfl

theorem with_activering (h : Sound s) (hup : s.wrthread_data ≠ none) (t : ℕ) (work : Work) :
    ∃ s', s.with_activering t work = some s' ∧ Sound s' ∧ Logs s s' := by
  unfold Context.with_activering
  split_ifs
  · exact ⟨_, rfl, h.set_user t _, .of_buf rfl rfl⟩
  · exact h.in_activering hup t work

theorem route (h : Sound s) (hup : s.wrthread_data ≠ none) (t : ℕ) (type : LogType) (msglen : ℕ)
    (td : ThreadData) :
    ∃ s', Context.route t type msglen td s = some s' ∧ Sound s' ∧ Logs s s' := by
  unfold Context.route
  split_ifs
  · exact h.in_wrthruring hup t msglen
  · cases type with
    | CONSOLE => exact ⟨_, rfl, h.set_user t _, .of_buf rfl rfl⟩
    | INTERNAL => exact h.in_wrthruring hup t msglen
    | MESSAGE => exact h.in_wrthruring hup t msglen
    | _ => exact h.with_activering hup t _

theorem term_user (h : Sound s) (t : ℕ) :
    ∃ s', (s.mtx_pmlog_term.bind fun s => some (s.set_user t .ready)) = some s' ∧ Sound s' := by
  obtain ⟨s₁, hterm, h₁⟩ := h.term
  exact ⟨s₁.set_user t .ready, by rw [hterm]; rfl, h₁.set_user t _⟩

/-- Whether the file is open, which `_mtx_file_open_errcode` finds out. -/
theorem file_open (h : Sound s) :
    s.wrthread_data = none ∨
    ∃ k td, s.wrthread_data = some k ∧ s.td[k]? = some td := by
  rcases Option.eq_none_or_eq_some s.wrthread_data with hdata | ⟨k, hdata⟩
  · exact .inl hdata
  · obtain ⟨-, td, -, -, -, -, htd, -⟩ := h.up k hdata
    exact .inr ⟨k, td, hdata, htd⟩

theorem after_sync (h : Sound s) (t : ℕ) (next : AfterSync) :
    ∃ s', Context.after_sync t next s = some s' ∧ Sound s' := by
  cases next with
  | done => exact ⟨_, rfl, h.set_user t _⟩
  | term => exact h.term_user t
  | init =>
    unfold Context.after_sync
    rcases h.file_open with hdata | ⟨k, td, hdata, htd⟩
    · simp only [hdata]
      exact h.term_user t
    · cases hopen : td.logfd with
      | false =>
        simp only [hdata, htd, Option.bind_eq_bind, Option.bind_some, hopen]
        exact h.term_user t
      | true =>
        simp only [hdata, htd, Option.bind_eq_bind, Option.bind_some, hopen]
        exact ⟨_, rfl, h.set_user t _⟩
  | message type msglen =>
    unfold Context.after_sync
    rcases h.file_open with hdata | ⟨k, td, hdata, htd⟩
    · simp only [hdata]
      exact h.term_user t
    · cases hopen : td.logfd with
      | false =>
        simp only [hdata, htd, Option.bind_eq_bind, Option.bind_some, hopen]
        exact h.term_user t
      | true =>
        simp only [hdata, htd, Option.bind_eq_bind, Option.bind_some, hopen]
        obtain ⟨s', hroute, h', -⟩ := h.route (hdata ▸ Option.some_ne_none k) t type msglen td
        exact ⟨s', hroute, h'⟩

theorem mtx_sync (h : Sound s) (t : ℕ) (next : AfterSync) :
    ∃ s', Context.mtx_sync t next s = some s' ∧ Sound s' := by
  unfold Context.mtx_sync
  rcases h.file_open with hdata | ⟨k, td, hdata, htd⟩
  · simp only [hdata]
    exact h.after_sync t next
  · simp only [hdata, htd, Option.bind_eq_bind, Option.bind_some]
    have hset : Sound (s.set_td k { td with sync := true }) := h.set_flags htd rfl rfl
    exact ⟨_, rfl, hset.set_user t _⟩

theorem pmlog_message (h : Sound s) (t : ℕ) (type : LogType) (len : ℕ) :
    ∃ s', log.pmlog_message cfg t type len s = some s' ∧ Sound s' := by
  unfold log.pmlog_message
  split_ifs
  · exact ⟨s, rfl, h⟩
  · exact ⟨s, rfl, h⟩
  · rcases h.file_open with hdata | ⟨k, td, hdata, htd⟩
    · simp only [hdata]
      exact h.init.1.mtx_sync t _
    · simp only [hdata, htd, Option.bind_eq_bind, Option.bind_some]
      obtain ⟨s', hroute, h', -⟩ := h.route (hdata ▸ Option.some_ne_none k) t type _ td
      exact ⟨s', hroute, h'⟩

/-- No call meets memory that is freed, whenever it starts. -/
theorem call (h : Sound s) (t : ℕ) (c : Call) : ∃ s', log.call cfg t s c = some s' ∧ Sound s' := by
  cases c with
  | init => exact h.init.1.mtx_sync t .init
  | message type len => exact h.pmlog_message t type len
  | flush =>
    unfold log.call
    split_ifs with hdata
    · exact ⟨s, rfl, h⟩
    · obtain ⟨s', hflush, h', -⟩ := h.with_activering hdata t .flush
      exact ⟨s', hflush, h'⟩
  | rotate =>
    show ∃ s', log.pmlog_rotate t s = some s' ∧ Sound s'
    unfold log.pmlog_rotate
    rcases h.file_open with hdata | ⟨k, td, hdata, htd⟩
    · simp only [hdata]
      exact ⟨s, rfl, h⟩
    · simp only [hdata, htd, Option.bind_eq_bind, Option.bind_some]
      have hset : Sound (s.set_td k { td with rotate := true }) := h.set_flags htd rfl rfl
      exact ⟨_, rfl, hset.set_user t _⟩
  | sync => exact h.mtx_sync t .done
  | term => exact h.mtx_sync t .term

end Users

end Sound

/-- What a waiting thread uses when it wakes up belongs to the context. -/
def UserPc.needs_context : UserPc → Bool
  | .wrthru_wait _ | .active_wait _ | .rotate_wait => true
  | .ready | .sync_wait _ => false

/-- Where a thread may resume. A write thread that drains a ring may while it is not to
terminate, and a user thread that waits for a ring or for a rotation while the context is up. -/
def Safe (a : Action) (s : Context) : Prop :=
  match a with
  | .wake t => (s.user t).needs_context = true → s.wrthread_data ≠ none
  | .lock k => ∀ td ∈ s.td[k]?, ∀ r, td.pc = .written r → td.terminate = false
  | _ => True

/-- A write thread that is to terminate touches no ring unless it was draining one. -/
theorem write_thread_terminate {td : ThreadData} (hterminate : td.terminate = true)
    (hrings : td.pc.rings = []) (b : Buffers) :
    ∃ td', write_thread td b = some (td', b) ∧ td'.terminate = true ∧ td'.pc.rings = [] := by
  have hpasses : ∀ rotate n didwork, passes true rotate (n + 1) didwork b = some (.exited, b) :=
    fun _ _ _ => rfl
  have hturn : (∃ didwork, left_off td b = some (.go didwork, b)) ∨
      left_off td b = some (.release .rotating, b) := by
    unfold left_off
    rw [hterminate]
    cases hpc : td.pc with
    | waiting =>
      cases td.rotate with
      | true => exact .inr rfl
      | false => exact .inl ⟨false, rfl⟩
    | rotating => exact .inl ⟨true, rfl⟩
    | written_wrthru => exact .inl ⟨true, rfl⟩
    | starting => exact .inl ⟨true, rfl⟩
    | exited => exact .inl ⟨true, rfl⟩
    | writing r m => rw [hpc] at hrings; cases hrings
    | written r => rw [hpc] at hrings; cases hrings
    | writing_wrthru r m => rw [hpc] at hrings; cases hrings
  rw [write_thread]
  rcases hturn with ⟨didwork, hturn⟩ | hturn
  · simp only [hturn, Option.bind_eq_bind, Option.bind_some, go_on, hterminate, hpasses]
    exact ⟨_, rfl, rfl, rfl⟩
  · simp only [hturn, Option.bind_eq_bind, Option.bind_some, go_on]
    exact ⟨_, rfl, hterminate, rfl⟩

/-- A write thread that is to terminate and was draining a ring goes on with the freed ring. -/
theorem write_thread_dangling {td : ThreadData} (hterminate : td.terminate = true) {r : ℕ}
    (hpc : td.pc = .written r) (hfreed : b.ring r = none) : write_thread td b = none := by
  have hturn : left_off td b = none := by
    simp [left_off, hpc, hterminate, resume_ring, Buffers.push_idle, hfreed]
  rw [write_thread, hturn]
  rfl

namespace Sound

variable {k t : ℕ} {td : ThreadData}

theorem run_thread (h : Sound s) (htd : s.td[k]? = some td) (hflight : td.pc.flight = []) :
    ((∀ r, td.pc = .written r → td.terminate = false) →
      ∃ s', log.run_thread k td s = some s' ∧ Sound s') ∧
    (∀ r, td.pc = .written r → td.terminate = true → log.run_thread k td s = none) := by
  constructor
  · intro hsafe
    by_cases hk : s.wrthread_data = some k
    · obtain ⟨hcount, td₁, normal, wr, idle, lock, htd₁, hterm, hkept⟩ := h.up k hk
      obtain rfl : td = td₁ := Option.some.inj (htd.symm.trans htd₁)
      obtain ⟨td', b', hrun, hframe, hterm', -, idle', lock', hkept'⟩ :=
        hkept.write_thread hterm hflight
      refine ⟨{ s.set_td k td' with buf := b' }, by rw [log.run_thread, hrun]; rfl, ?_⟩
      refine h.of_current td' hk hk hcount ?_ (fun j hj => ?_) hterm' hframe.memory
        ⟨normal, wr, idle', lock', hkept'⟩
      · show (s.set_td k td').td[k]? = _
        rw [td_set_td htd, if_pos rfl]
      · show (s.set_td k td').td[j]? = _
        rw [td_set_td htd, if_neg hj]
    · have hterm := (h.stale k td htd hk).1
      have hrings : td.pc.rings = [] := by
        cases hpc : td.pc with
        | written r =>
          rw [hsafe r hpc] at hterm
          cases hterm
        | writing r m => rw [hpc] at hflight; cases hflight
        | writing_wrthru r m => rw [hpc] at hflight; cases hflight
        | _ => rfl
      obtain ⟨td', hrun, hterm', hrings'⟩ := write_thread_terminate hterm hrings s.buf
      refine ⟨s.set_td k td', by rw [log.run_thread, hrun]; rfl, ?_⟩
      exact h.of_stale htd hk hterm' fun r hr => absurd (hrings' ▸ hr) List.not_mem_nil
  · intro r hpc hterm
    have hk : s.wrthread_data ≠ some k := by
      intro hk
      obtain ⟨-, td₁, -, -, -, -, htd₁, hterm₁, -⟩ := h.up k hk
      rw [← Option.some.inj (htd.symm.trans htd₁), hterm] at hterm₁
      cases hterm₁
    have hfreed := ((h.stale k td htd hk).2 r (by rw [hpc]; exact List.mem_singleton_self r)).2
    rw [log.run_thread, write_thread_dangling hterm hpc hfreed]
    rfl

/-- A write thread that is to terminate writes the message that it popped before. -/
theorem write_stale (h : Sound s) {e : Entry} (hnext : e.ring < s.buf.next)
    (hfreed : s.buf.ring e.ring = none) (opened : Bool) :
    Sound { s with buf := s.buf.write_message opened e } := by
  have hframe : NoAlloc s.buf (s.buf.write_message opened e) := by
    cases opened <;> exact NoAlloc.refl _
  refine ⟨fun hnone => ?_, fun j hj => ?_, fun j td hj hne => ?_⟩
  · obtain ⟨hcount, hdown⟩ := h.down hnone
    obtain ⟨wr, hledger⟩ := hdown.ledger
    have hledger' := hledger.write_stale hnext (hdown.rings ▸ List.not_mem_nil) opened
    cases opened <;> exact ⟨hcount, hdown.lockqp, hdown.idleqp, hdown.activering,
      hdown.wrthruring, hdown.rings, wr, hledger'⟩
  · obtain ⟨hcount, td, normal, wr, idle, lock, htd, hterm, hkept⟩ := h.up j hj
    have hring : e.ring ∉ s.buf.rings := fun hmem => hkept.placed.ring_ne_none hmem hfreed
    exact ⟨hcount, td, normal, wr, idle, lock, htd, hterm, hkept.placed.write_message,
      hkept.ledger.write_stale hnext hring opened, hkept.pointers⟩
  · obtain ⟨hterm, hrings⟩ := h.stale j td hj hne
    exact ⟨hterm, fun r hr => ⟨hframe.1 ▸ (hrings r hr).1, hframe.2 r (hrings r hr).2⟩⟩

/-- A message is written, by the write thread of the context or another. -/
theorem write (h : Sound s) (htd : s.td[k]? = some td) (e : Entry) (pc : WrPc)
    (hflight : td.pc.flight = [e]) (hpc : pc.flight = []) (hdrained : pc.drained = td.pc.drained)
    (hrings : ∀ r ∈ pc.rings, r ∈ td.pc.rings) (he : e.ring ∈ td.pc.rings) :
    Sound { s.set_td k { td with pc } with buf := s.buf.write_message td.logfd e } := by
  have hframe : NoAlloc s.buf (s.buf.write_message td.logfd e) := by
    cases td.logfd <;> exact NoAlloc.refl _
  have hset : ∀ j, (s.set_td k { td with pc }).td[j]? = if j = k then some { td with pc } else s.td[j]? :=
    td_set_td htd _
  by_cases hk : s.wrthread_data = some k
  · obtain ⟨hcount, td₁, normal, wr, idle, lock, htd₁, hterm, hkept⟩ := h.up k hk
    obtain rfl : td = td₁ := Option.some.inj (htd.symm.trans htd₁)
    have hnext := hkept.placed.below e.ring (hkept.pointers e.ring he)
    have hledger : Ledger s.buf wr [e] := hflight ▸ hkept.ledger
    refine h.of_current { td with pc } hk hk hcount ?_ (fun j hj => ?_) hterm hframe
      ⟨normal, wr, idle, lock, ?_, ?_, fun r hr => hkept.pointers r (hrings r hr)⟩
    · exact (hset k).trans (if_pos rfl)
    · exact (hset j).trans (if_neg hj)
    · show Placed _ normal wr idle lock pc.drained
      rw [hdrained]
      exact hkept.placed.write_message
    · show Ledger _ wr pc.flight
      rw [hpc]
      exact hledger.write_message hnext td.logfd
  · obtain ⟨hterm, hdangling⟩ := h.stale k td htd hk
    have hstale : Sound (s.set_td k { td with pc }) := h.of_stale htd hk hterm hrings
    exact hstale.write_stale (hdangling e.ring he).1 (hdangling e.ring he).2 td.logfd

theorem wake (h : Sound s) (ht : s.user t ≠ .ready) :
    (Safe (.wake t) s → ∃ s', log.wake t s = some s' ∧ Sound s') ∧
    (¬ Safe (.wake t) s → log.wake t s = none) := by
  unfold log.wake
  show (((s.user t).needs_context = true → s.wrthread_data ≠ none) → _) ∧
    (¬ ((s.user t).needs_context = true → s.wrthread_data ≠ none) → _)
  cases huser : s.user t with
  | ready => exact absurd huser ht
  | wrthru_wait msglen =>
    refine ⟨fun hup => ?_, fun hunsafe => ?_⟩
    · obtain ⟨s', hin, h', -⟩ := h.in_wrthruring (hup rfl) t msglen
      exact ⟨s', hin, h'⟩
    obtain ⟨-, hdown⟩ := Classical.not_imp.mp hunsafe
    have hwr := (h.down (not_not.mp hdown)).2.wrthruring
    simp [Context.in_wrthruring, use_wrthruring, Buffers.getwrthruring, hwr]
  | active_wait work =>
    refine ⟨fun hup => ?_, fun hunsafe => ?_⟩
    · obtain ⟨s', hin, h', -⟩ := h.in_activering (hup rfl) t work
      exact ⟨s', hin, h'⟩
    obtain ⟨-, hdown⟩ := Classical.not_imp.mp hunsafe
    have hd := (h.down (not_not.mp hdown)).2
    simp [Context.in_activering, use_activering, Buffers.getactivering, hd.activering, hd.idleqp]
  | rotate_wait =>
    constructor
    · intro hup
      rcases h.file_open with hdata | ⟨k, td, hdata, htd⟩
      · exact absurd hdata (hup rfl)
      · simp only [hdata, htd, Option.bind_eq_bind, Option.bind_some]
        split_ifs
        · exact ⟨s, rfl, h⟩
        · exact ⟨_, rfl, h.set_user t _⟩
    · intro hunsafe
      obtain ⟨-, hdown⟩ := Classical.not_imp.mp hunsafe
      rw [not_not.mp hdown]
      rfl
  | sync_wait next =>
    refine ⟨fun _ => ?_, fun hunsafe => absurd (fun h => absurd h Bool.false_ne_true) hunsafe⟩
    rcases h.file_open with hdata | ⟨k, td, hdata, htd⟩
    · simp only [hdata]
      exact h.after_sync t next
    · simp only [hdata, htd, Option.bind_eq_bind, Option.bind_some]
      split_ifs
      · exact ⟨s, rfl, h⟩
      · exact h.after_sync t next

/-- A write thread starts with its files open or not. -/
theorem start (h : Sound s) (htd : s.td[k]? = some td) (hpc : td.pc = .starting) (opened : Bool) :
    ∃ s', log.run_thread k { td with logfd := opened } s = some s' ∧ Sound s' := by
  have hset : Sound (s.set_td k { td with logfd := opened }) := h.set_flags htd rfl rfl
  have htd' : (s.set_td k { td with logfd := opened }).td[k]? =
      some { td with logfd := opened } := by
    rw [td_set_td htd, if_pos rfl]
  have hsame : log.run_thread k { td with logfd := opened } (s.set_td k { td with logfd := opened }) =
      log.run_thread k { td with logfd := opened } s := by
    unfold log.run_thread Context.set_td
    simp only [List.set_set]
  rw [← hsame]
  refine (hset.run_thread htd' ?_).1 fun r hr => ?_
  · show td.pc.flight = []
    rw [hpc]
    rfl
  · have hr : td.pc = .written r := hr
    rw [hpc] at hr
    cases hr

/-- A safe step keeps the invariant, and any other meets a freed ring or a null pointer. -/
theorem perform (h : Sound s) {a : Action} {o : Outcome} (hp : log.perform cfg a s = some o) :
    (Safe a s → ∃ s', o = some s' ∧ Sound s') ∧ (¬ Safe a s → o = none) := by
  cases a with
  | call t c =>
    simp only [log.perform] at hp
    split_ifs at hp
    cases hp
    exact ⟨fun _ => h.call t c, fun hsafe => absurd trivial hsafe⟩
  | wake t =>
    simp only [log.perform] at hp
    split_ifs at hp with ht
    cases hp
    exact h.wake ht
  | start k opened =>
    obtain ⟨td, htd, hp⟩ := Option.bind_eq_some_iff.mp hp
    split_ifs at hp with hpc
    cases hp
    exact ⟨fun _ => h.start htd hpc opened, fun hsafe => absurd trivial hsafe⟩
  | lock k =>
    obtain ⟨td, htd, hp⟩ := Option.bind_eq_some_iff.mp hp
    have hflight : td.pc.flight = [] ∧ o = log.run_thread k td s := by
      cases hpc : td.pc <;> rw [hpc] at hp <;> cases hp <;> exact ⟨rfl, rfl⟩
    obtain ⟨hflight, rfl⟩ := hflight
    obtain ⟨hok, hbad⟩ := h.run_thread htd hflight
    constructor
    · exact fun hsafe => hok fun r hpc => hsafe td htd r hpc
    · intro hsafe
      simp only [Safe, not_forall] at hsafe
      obtain ⟨td', htd', r, hpc, hterm⟩ := hsafe
      obtain rfl : td = td' := Option.some.inj (htd.symm.trans htd')
      exact hbad r hpc (Bool.not_eq_false _ ▸ hterm)
  | write k =>
    obtain ⟨td, htd, hp⟩ := Option.bind_eq_some_iff.mp hp
    refine ⟨fun _ => ?_, fun hsafe => absurd trivial hsafe⟩
    cases hpc : td.pc with
    | writing r m =>
      rw [hpc] at hp
      cases hp
      refine ⟨_, rfl, h.write htd ⟨r, m⟩ (.written r) ?_ rfl ?_ ?_ ?_⟩ <;> rw [hpc]
      · rfl
      · rfl
      · exact fun r hr => hr
      · exact List.mem_singleton_self r
    | writing_wrthru r m =>
      rw [hpc] at hp
      cases hp
      refine ⟨_, rfl, h.write htd ⟨r, m⟩ .written_wrthru ?_ rfl ?_ ?_ ?_⟩ <;> rw [hpc]
      · rfl
      · rfl
      · exact fun r hr => absurd hr List.not_mem_nil
      · exact List.mem_singleton_self r
    | _ => rw [hpc] at hp; cases hp

end Sound

end pwrapi.log
