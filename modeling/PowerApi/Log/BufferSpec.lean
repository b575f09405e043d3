import PowerApi.Log.Ownership
import PowerApi.Log.Context

open BoundedQueue

namespace pwrapi.log

variable {b b' : Buffers} {normal : List ℕ} {wr r : ℕ} {idle lock : List ℕ} {pc : WrPc}
  {ring : Ring}

namespace Kept

/-- A place that holds the same does for the invariant. -/
theorem at_pc (h : Kept b normal wr idle lock pc) {pc' : WrPc} (hdrained : pc'.drained = pc.drained)
    (hflight : pc'.flight = pc.flight) (hrings : pc'.rings = pc.rings) :
    Kept b normal wr idle lock pc' :=
  ⟨hdrained ▸ h.placed, hflight ▸ h.ledger, hrings ▸ h.pointers⟩

theorem held_eq (hring : b.ring r = some ring) : b.held r = ring.msgs := by
  rw [Buffers.held, hring]
  rfl

/-- A change of a ring's state leaves its messages. -/
theorem held_set_state (hring : b.ring r = some ring) (state : RingState) (q : ℕ) :
    (b.set_ring r { ring with state }).held q = b.held q := by
  rw [held_set_ring]
  split_ifs with h
  · rw [h, held_eq hring]
  · rfl

theorem getactivering (h : Kept b normal wr idle lock pc) :
    b.getactivering = some none ∨
    ∃ r b' idle', b.getactivering = some (some (r, b')) ∧ b'.activering = some r ∧
      Kept b' normal wr idle' lock pc ∧ Frame b b' := by
  unfold Buffers.getactivering
  cases hactive : b.activering with
  | some r => exact .inr ⟨r, b, idle, rfl, hactive, h, Frame.refl b⟩
  | none =>
    rw [h.placed.idleqp]
    cases idle with
    | nil => exact .inl rfl
    | cons r idle =>
      have hplaced := h.placed
      have hfrom : places (r :: idle) b.activering lock pc.drained =
          (r, .IDLE) :: places idle none lock pc.drained := by
        rw [hactive]
        rfl
      obtain ⟨ring, hring, -⟩ := hplaced.ring_of_mem (hfrom ▸ List.mem_cons_self)
      refine .inr ⟨r, { b.set_ring r { ring with state := .ACTIVE } with
        idleqp := some idle, activering := some r }, idle, ?_, rfl, ⟨?_, ?_, h.pointers⟩, ?_⟩
      · simp only [Option.bind_eq_bind, Option.bind_some, hring]
      · exact hplaced.move (List.Perm.of_eq hfrom) places_activate rfl rfl rfl
          hplaced.lockqp rfl rfl rfl rfl
      · exact h.ledger.keep (held_set_state hring _) rfl rfl rfl rfl rfl rfl
      · exact frame_of_ring hring rfl rfl rfl

/-- A put into a ring of the context, which drops from an active ring or not at all. -/
theorem putmessage (h : Kept b normal wr idle lock pc) (hr : r ∈ normal ++ [wr])
    (hring : b.ring r = some ring) (msglen : ℕ)
    (hdrop : excess Message.msglen ring.size msglen ring.msgs = 0 ∨
      ring.state = .ACTIVE ∧ r ≠ wr) :
    b.putmessage r msglen = some (b.put_in r msglen ring) ∧
      Kept (b.put_in r msglen ring) normal wr idle lock pc ∧ Frame b (b.put_in r msglen ring) := by
  refine ⟨?_, ⟨?_, ?_, h.pointers⟩, frame_of_ring hring rfl rfl rfl⟩
  · rw [Buffers.putmessage, hring]
    rfl
  · exact h.placed.keep hring rfl rfl rfl rfl rfl rfl rfl rfl rfl
  · exact h.ledger.put_in (h.placed.rings ▸ hr) (h.placed.below r hr) hring msglen hdrop

/-- The flush of the active ring. -/
theorem flushring_active (h : Kept b normal wr idle lock pc) (hactive : b.activering = some r) :
    ∃ b', b.flushring r = some b' ∧ Kept b' normal wr idle (lock ++ [r]) pc ∧ Frame b b' := by
  have hplaced := h.placed
  have hfrom : (places idle b.activering lock pc.drained).Perm
      ((r, .ACTIVE) :: places idle none lock pc.drained) := hactive ▸ places_activate
  obtain ⟨ring, hring, hstate⟩ := hplaced.ring_of_mem (hfrom.symm.subset List.mem_cons_self)
  refine ⟨{ b.set_ring r { ring with state := .LOCKED } with
    lockqp := some (lock ++ [r]), activering := none }, ?_, ⟨?_, ?_, h.pointers⟩,
    frame_of_ring hring rfl rfl rfl⟩
  · simp only [Buffers.flushring, hring, hplaced.lockqp, Option.bind_eq_bind, Option.bind_some,
      hstate, if_true]
  · exact hplaced.move hfrom places_lock rfl rfl hplaced.idleqp rfl rfl rfl rfl rfl
  · exact h.ledger.keep (held_set_state hring _) rfl rfl rfl rfl rfl rfl

/-- The flush of the write-through ring changes nothing. -/
theorem flushring_wrthru (h : Kept b normal wr idle lock pc) : b.flushring wr = some b := by
  obtain ⟨ring, hring, hstate⟩ := h.placed.ring_wr
  simp [Buffers.flushring, hring, hstate]

theorem use_activering (h : Kept b normal wr idle lock pc) (work : Work) :
    ∃ out, log.use_activering b work = some out ∧ ∀ b', out = some b' →
      (∃ idle' lock', Kept b' normal wr idle' lock' pc) ∧ Frame b b' := by
  rcases h.getactivering with hwait | ⟨r, b₁, idle', hget, hactive, h₁, hframe⟩
  · exact ⟨none, by rw [log.use_activering, hwait]; rfl, fun b' hb => nomatch hb⟩
  · have hmem : (r, .ACTIVE) ∈ places idle' b₁.activering lock pc.drained :=
      hactive ▸ places_activate.symm.subset List.mem_cons_self
    have hr : r ∈ normal := h₁.placed.mem_normal hmem
    obtain ⟨ring, hring, hstate⟩ := h₁.placed.ring_of_mem hmem
    rw [log.use_activering, hget]
    cases work with
    | flush =>
      obtain ⟨b₂, hflush, h₂, hframe'⟩ := h₁.flushring_active hactive
      refine ⟨some b₂, by simp [hflush], fun b' hb => ?_⟩
      cases hb
      exact ⟨⟨_, _, h₂⟩, hframe.trans hframe'⟩
    | put msglen flush =>
      obtain ⟨hput, h₂, hframe'⟩ := h₁.putmessage (List.mem_append_left _ hr) hring msglen
        (.inr ⟨hstate, h₁.placed.ne_wr hr⟩)
      cases flush with
      | false =>
        refine ⟨some (b₁.put_in r msglen ring), by simp [hput], fun b' hb => ?_⟩
        cases hb
        exact ⟨⟨_, _, h₂⟩, hframe.trans hframe'⟩
      | true =>
        obtain ⟨b₃, hflush, h₃, hframe''⟩ := h₂.flushring_active hactive
        refine ⟨some b₃, by simp [hput, hflush], fun b' hb => ?_⟩
        cases hb
        exact ⟨⟨_, _, h₃⟩, (hframe.trans hframe').trans hframe''⟩

theorem use_wrthruring (h : Kept b normal wr idle lock pc) (msglen : ℕ) :
    ∃ out, log.use_wrthruring b msglen = some out ∧ ∀ b', out = some b' →
      (∃ idle' lock', Kept b' normal wr idle' lock' pc) ∧ Frame b b' := by
  obtain ⟨ring, hring, -⟩ := h.placed.ring_wr
  have hget : b.getwrthruring msglen =
      if space Message.msglen ring.size ring.msgs ≤ msglen then some none else some (some wr) := by
    simp only [Buffers.getwrthruring, h.placed.wrthruring, hring, Option.bind_eq_bind,
      Option.bind_some]
  rw [log.use_wrthruring, hget]
  by_cases hspace : space Message.msglen ring.size ring.msgs ≤ msglen
  · exact ⟨none, by simp [hspace], fun b' hb => nomatch hb⟩
  · have hzero := excess_of_lt (Nat.not_le.mp hspace)
    obtain ⟨hput, h₁, hframe⟩ := h.putmessage (List.mem_append_right _ (List.mem_singleton_self wr))
      hring msglen (.inl hzero)
    refine ⟨some (b.put_in wr msglen ring), by simp [hspace, hput, h₁.flushring_wrthru], ?_⟩
    intro b' hb
    cases hb
    exact ⟨⟨_, _, h₁⟩, hframe⟩

/-- What the write thread gets out of a ring, which it drains or writes through. -/
theorem getmessage_nil (hring : b.ring r = some ring) (hmsgs : ring.msgs = []) :
    b.getmessage r = some none := by
  simp only [Buffers.getmessage, hring, Option.bind_eq_bind, Option.bind_some, hmsgs]

theorem getmessage_cons {m : Message} {msgs : List Message} (hring : b.ring r = some ring)
    (hmsgs : ring.msgs = m :: msgs) :
    b.getmessage r = some (some (m, b.set_ring r { ring with msgs })) := by
  simp only [Buffers.getmessage, hring, Option.bind_eq_bind, Option.bind_some, hmsgs]

theorem pop (h : Kept b normal wr idle lock pc) (hflight : pc.flight = []) {m : Message}
    {msgs : List Message} (hring : b.ring r = some ring) (hmsgs : ring.msgs = m :: msgs)
    {pc' : WrPc} (hdrained : pc'.drained = pc.drained) (hpc : pc'.flight = [⟨r, m⟩])
    (hrings : pc'.rings = [r]) (hr : r ∈ normal ++ [wr]) :
    Kept (b.set_ring r { ring with msgs }) normal wr idle lock pc' := by
  have hledger := h.ledger
  rw [hflight] at hledger
  refine ⟨?_, hpc ▸ hledger.pop hring hmsgs, fun q hq => ?_⟩
  · rw [hdrained]
    exact h.placed.keep hring rfl rfl rfl rfl rfl rfl rfl rfl rfl
  · rw [hrings] at hq
    exact List.mem_singleton.mp hq ▸ hr

/-- A locked ring comes off its queue. -/
theorem pop_ring (h : Kept b normal wr idle (r :: lock) .waiting) :
    Kept { b with lockqp := some lock } normal wr idle lock (.written r) ∧
      ∃ ring, b.ring r = some ring := by
  have hplaced := h.placed
  obtain ⟨ring, hring, hstate⟩ := hplaced.ring_of_mem
    (places_pop.symm.subset List.mem_cons_self)
  have hset : (b.set_ring r ring).ring = b.ring := by
    rw [Buffers.set_ring, ← hring, Function.update_eq_self]
  refine ⟨⟨?_, h.ledger.keep (fun q => rfl) rfl rfl rfl rfl rfl rfl, fun q hq => ?_⟩, ring, hring⟩
  · exact hplaced.move places_pop places_drain hset.symm hstate hplaced.idleqp rfl rfl rfl rfl rfl
  · rw [List.mem_singleton.mp hq]
    exact List.mem_append_left _ (hplaced.mem_normal (places_pop.symm.subset List.mem_cons_self))

theorem push_idle (h : Kept b normal wr idle lock (.written r)) :
    ∃ b', b.push_idle r = some b' ∧ Kept b' normal wr (idle ++ [r]) lock .waiting ∧
      Frame b b' := by
  have hplaced := h.placed
  obtain ⟨ring, hring, hstate⟩ := hplaced.ring_of_mem
    (places_drain.symm.subset List.mem_cons_self)
  refine ⟨{ b.set_ring r { ring with state := .IDLE } with idleqp := some (idle ++ [r]) }, ?_,
    ⟨?_, ?_, fun q hq => absurd hq List.not_mem_nil⟩, frame_of_ring hring rfl rfl rfl⟩
  · simp only [Buffers.push_idle, hring, hplaced.idleqp, Option.bind_eq_bind, Option.bind_some]
  · exact hplaced.move places_drain places_idle rfl rfl rfl hplaced.lockqp rfl rfl rfl rfl
  · exact h.ledger.keep (held_set_state hring _) rfl rfl rfl rfl rfl rfl

end Kept

/-- What a part of the write thread's loop leads to: the invariant where it gives up the mutex,
and `G` where it goes on. -/
def Lands (b : Buffers) (normal : List ℕ) (wr : ℕ) (G : Buffers → Prop) :
    Turn × Buffers → Prop
  | (.release pc, b') => Frame b b' ∧ ∃ idle lock, Kept b' normal wr idle lock pc
  | (.go _, b') => Frame b b' ∧ G b'

/-- There is nothing for the write thread to do. -/
def Settled (normal : List ℕ) (wr : ℕ) (b : Buffers) : Prop :=
  ∃ idle, Kept b normal wr idle [] .waiting ∧ b.held wr = []

section Lands

variable {G G' : Buffers → Prop} {out : Turn × Buffers}

theorem Lands.of_frame (hframe : Frame b b') (h : Lands b' normal wr G out) :
    Lands b normal wr G out := by
  obtain ⟨turn, b''⟩ := out
  cases turn with
  | release pc => exact ⟨hframe.trans h.1, h.2⟩
  | go didwork => exact ⟨hframe.trans h.1, h.2⟩

theorem Lands.imp (h : Lands b normal wr G out) (himp : ∀ b', G b' → G' b') :
    Lands b normal wr G' out := by
  obtain ⟨turn, b''⟩ := out
  cases turn with
  | release pc => exact h
  | go didwork => exact ⟨h.1, himp _ h.2⟩

end Lands

namespace Kept

theorem pop_locked (h : Kept b normal wr idle lock .waiting) (didwork : Bool) :
    ∃ out, log.pop_locked lock didwork b = some out ∧
      Lands b normal wr (fun b' => ∃ idle, Kept b' normal wr idle [] .waiting) out := by
  induction lock generalizing b idle didwork with
  | nil => exact ⟨(.go didwork, b), rfl, Frame.refl b, idle, h⟩
  | cons r lock ih =>
    obtain ⟨h₁, ring, hring⟩ := h.pop_ring
    rw [log.pop_locked]
    have hframe : Frame b { b with lockqp := some lock } := ⟨NoAlloc.refl b, rfl⟩
    have hring₁ : ({ b with lockqp := some lock } : Buffers).ring r = some ring := hring
    generalize ({ b with lockqp := some lock } : Buffers) = b₁ at h₁ hframe hring₁ ⊢
    cases hmsgs : ring.msgs with
    | cons m msgs =>
      refine ⟨(.release (.writing r m), b₁.set_ring r { ring with msgs }), ?_,
        hframe.trans (frame_of_ring hring₁ rfl rfl rfl), idle, lock, 
        h₁.pop rfl hring₁ hmsgs rfl rfl rfl (h₁.pointers r (List.mem_singleton_self r))⟩
      simp only [Kept.getmessage_cons hring₁ hmsgs, Option.bind_eq_bind, Option.bind_some]
    | nil =>
      obtain ⟨b₂, hpush, h₂, hframe'⟩ := h₁.push_idle
      obtain ⟨⟨turn, b'⟩, hout, hlands⟩ := ih h₂ true
      refine ⟨(turn, b'), ?_, ?_⟩
      · simp only [Kept.getmessage_nil hring₁ hmsgs, Option.bind_eq_bind, Option.bind_some, hpush,
          hout]
      · exact Lands.of_frame (hframe.trans hframe') hlands

theorem wrthru_messages (h : Kept b normal wr idle lock .waiting) (didwork : Bool) :
    (∃ pc b', log.wrthru_messages false didwork b = some (.release pc, b') ∧ Frame b b' ∧
      Kept b' normal wr idle lock pc) ∨
    log.wrthru_messages false didwork b = some (.go didwork, b) ∧ b.held wr = [] := by
  obtain ⟨ring, hring, -⟩ := h.placed.ring_wr
  have hwr := h.placed.wrthruring
  cases hmsgs : ring.msgs with
  | cons m msgs =>
    refine .inl ⟨.writing_wrthru wr m, b.set_ring wr { ring with msgs }, ?_, frame_of_ring hring rfl rfl rfl,
      h.pop rfl hring hmsgs rfl rfl rfl (List.mem_append_right _ (List.mem_singleton_self wr))⟩
    simp [log.wrthru_messages, hwr, getmessage_cons hring hmsgs]
  | nil =>
    refine .inr ⟨?_, by rw [held_eq hring, hmsgs]⟩
    simp [log.wrthru_messages, hwr, getmessage_nil hring hmsgs]

theorem deliver (h : Kept b normal wr idle lock .waiting) (didwork : Bool) :
    ∃ out, log.deliver false didwork b = some out ∧
      Lands b normal wr (Settled normal wr) out := by
  obtain ⟨⟨turn, b₁⟩, hpop, hlands⟩ := h.pop_locked didwork
  have hlocked : locked_rings false didwork b = some (turn, b₁) := by
    simp [locked_rings, h.placed.lockqp, hpop]
  rw [log.deliver, hlocked]
  cases turn with
  | release pc => exact ⟨(.release pc, b₁), rfl, hlands⟩
  | go didwork' =>
    obtain ⟨hframe, idle', h₁⟩ := hlands
    rcases h₁.wrthru_messages didwork' with ⟨pc, b₂, hthru, hframe', h₂⟩ | ⟨hthru, hheld⟩
    · exact ⟨(.release pc, b₂), hthru, hframe.trans hframe', _, _, h₂⟩
    · exact ⟨(.go didwork', b₁), hthru, hframe, idle', h₁, hheld⟩

theorem resume_ring (h : Kept b normal wr idle lock (.written r)) :
    ∃ out, log.resume_ring false r b = some out ∧ Lands b normal wr (Settled normal wr) out := by
  obtain ⟨ring, hring, -⟩ := h.placed.ring_of_mem
    (places_drain.symm.subset List.mem_cons_self)
  cases hmsgs : ring.msgs with
  | cons m msgs =>
    refine ⟨(.release (.writing r m), b.set_ring r { ring with msgs }), ?_, frame_of_ring hring rfl rfl rfl,
      idle, lock, h.pop rfl hring hmsgs rfl rfl rfl (h.pointers r (List.mem_singleton_self r))⟩
    simp [log.resume_ring, getmessage_cons hring hmsgs]
  | nil =>
    obtain ⟨b₁, hpush, h₁, hframe⟩ := h.push_idle
    obtain ⟨out, hout, hlands⟩ := h₁.deliver true
    refine ⟨out, ?_, hlands.of_frame hframe⟩
    simp [log.resume_ring, getmessage_nil hring hmsgs, hpush, hout]

theorem pass (h : Kept b normal wr idle lock .waiting) (rotate : Bool) :
    ∃ out, log.pass false rotate b = some out ∧ Lands b normal wr (Settled normal wr) out := by
  cases rotate with
  | true =>
    exact ⟨(.release .rotating, b), rfl, Frame.refl b, idle, lock, h.at_pc rfl rfl rfl⟩
  | false => exact h.deliver false

end Kept

/-- A pass without work does nothing. -/
theorem Settled.pass (h : Settled normal wr b) : log.pass false false b = some (.go false, b) := by
  obtain ⟨idle, h, hheld⟩ := h
  have hlocked : locked_rings false false b = some (.go false, b) := by
    simp [locked_rings, h.placed.lockqp, log.pop_locked]
  obtain ⟨ring, hring, -⟩ := h.placed.ring_wr
  rw [Kept.held_eq hring] at hheld
  show log.deliver false false b = _
  rw [log.deliver, hlocked]
  simp [log.wrthru_messages, h.placed.wrthruring, Kept.getmessage_nil hring hheld]

/-- With nothing to do, the outer loop ends in a wait, or in a rotation. -/
theorem Settled.passes (h : Settled normal wr b) (rotate didwork : Bool) (n : ℕ) :
    ∃ pc, log.passes false rotate (n + 2) didwork b = some (pc, b) ∧
      ∃ idle lock, Kept b normal wr idle lock pc := by
  obtain ⟨idle, hkept, -⟩ := id h
  cases didwork with
  | false => exact ⟨.waiting, rfl, idle, [], hkept⟩
  | true =>
    cases rotate with
    | true => exact ⟨.rotating, rfl, idle, [], hkept.at_pc rfl rfl rfl⟩
    | false =>
      refine ⟨.waiting, ?_, idle, [], hkept⟩
      simp [log.passes, h.pass]

namespace Kept

theorem passes (h : Kept b normal wr idle lock .waiting) (rotate didwork : Bool) :
    ∃ pc b', log.passes false rotate 3 didwork b = some (pc, b') ∧ Frame b b' ∧
      ∃ idle lock, Kept b' normal wr idle lock pc := by
  cases didwork with
  | false => exact ⟨.waiting, b, rfl, Frame.refl b, idle, lock, h⟩
  | true =>
    obtain ⟨⟨turn, b₁⟩, hpass, hlands⟩ := h.pass rotate
    cases turn with
    | release pc => exact ⟨pc, b₁, by simp [log.passes, hpass], hlands⟩
    | go didwork =>
      obtain ⟨hframe, hsettled⟩ := hlands
      obtain ⟨pc, hpasses, hkept⟩ := hsettled.passes rotate didwork 0
      refine ⟨pc, b₁, ?_, hframe, hkept⟩
      rw [log.passes]
      simp [hpass, hpasses]

theorem go_on {G : Buffers → Prop} {out : Turn × Buffers} (h : Lands b normal wr G out)
    (hG : ∀ b', G b' → ∃ idle lock, Kept b' normal wr idle lock .waiting) (rotate : Bool) :
    ∃ pc b', log.go_on false rotate out = some (pc, b') ∧ Frame b b' ∧
      ∃ idle lock, Kept b' normal wr idle lock pc := by
  obtain ⟨turn, b₁⟩ := out
  cases turn with
  | release pc => exact ⟨pc, b₁, rfl, h⟩
  | go didwork =>
    obtain ⟨hframe, hg⟩ := h
    obtain ⟨idle, lock, h₁⟩ := hG b₁ hg
    obtain ⟨pc, b₂, hpasses, hframe', hkept⟩ := h₁.passes rotate didwork
    exact ⟨pc, b₂, hpasses, hframe.trans hframe', hkept⟩

theorem left_off {td : ThreadData} (h : Kept b normal wr idle lock td.pc)
    (hterminate : td.terminate = false) (hflight : td.pc.flight = []) :
    ∃ out, log.left_off td b = some out ∧
      Lands b normal wr (fun b' => ∃ idle lock, Kept b' normal wr idle lock .waiting) out := by
  have hsettled : ∀ b', Settled normal wr b' → ∃ idle lock, Kept b' normal wr idle lock .waiting :=
    fun b' ⟨idle, hkept, _⟩ => ⟨idle, [], hkept⟩
  unfold log.left_off
  rw [hterminate]
  cases hpc : td.pc with
  | waiting =>
    obtain ⟨out, hout, hlands⟩ := (hpc ▸ h).pass td.rotate
    exact ⟨out, hout, hlands.imp hsettled⟩
  | rotating =>
    have h' : Kept b normal wr idle lock .waiting := (hpc ▸ h).at_pc rfl rfl rfl
    obtain ⟨out, hout, hlands⟩ := h'.deliver true
    exact ⟨out, hout, hlands.imp hsettled⟩
  | written r =>
    obtain ⟨out, hout, hlands⟩ := (hpc ▸ h).resume_ring
    exact ⟨out, hout, hlands.imp hsettled⟩
  | written_wrthru =>
    have h' : Kept b normal wr idle lock .waiting := (hpc ▸ h).at_pc rfl rfl rfl
    rcases h'.wrthru_messages true with ⟨pc, b', hthru, hframe, hkept⟩ | ⟨hthru, -⟩
    · exact ⟨(.release pc, b'), hthru, hframe, _, _, hkept⟩
    · exact ⟨(.go true, b), hthru, Frame.refl b, idle, lock, h'⟩
  | writing r m =>
    rw [hpc] at hflight
    cases hflight
  | writing_wrthru r m =>
    rw [hpc] at hflight
    cases hflight
  | starting => exact ⟨(.go true, b), rfl, Frame.refl b, idle, lock, (hpc ▸ h).at_pc rfl rfl rfl⟩
  | exited => exact ⟨(.go true, b), rfl, Frame.refl b, idle, lock, (hpc ▸ h).at_pc rfl rfl rfl⟩

/-- A write thread that is not to terminate keeps the invariant while it has the mutex. -/
theorem write_thread {td : ThreadData} (h : Kept b normal wr idle lock td.pc)
    (hterminate : td.terminate = false) (hflight : td.pc.flight = []) :
    ∃ td' b', log.write_thread td b = some (td', b') ∧ Frame b b' ∧
      td'.terminate = false ∧ td'.logfd = td.logfd ∧
      ∃ idle lock, Kept b' normal wr idle lock td'.pc := by
  obtain ⟨out, hout, hlands⟩ := h.left_off hterminate hflight
  obtain ⟨pc, b', hgo, hframe, hkept⟩ := go_on hlands (fun _ hb => hb)
    (if td.pc = .rotating then false else td.rotate)
  rw [log.write_thread, hout]
  simp only [Option.bind_eq_bind, Option.bind_some, hterminate, hgo]
  exact ⟨_, b', rfl, hframe, rfl, rfl, hkept⟩

end Kept

end pwrapi.log
