import Mathlib.Data.List.Perm.Basic
import Mathlib.Data.List.Nodup
import PowerApi.Log.Buffers

open BoundedQueue

namespace pwrapi.log

/-- The ring that a write thread is draining. -/
def WrPc.drained : WrPc → List ℕ
  | .writing r _ | .written r => [r]
  | _ => []

/-- The message that a write thread has popped and is about to write. -/
def WrPc.flight : WrPc → List Entry
  | .writing r m | .writing_wrthru r m => [⟨r, m⟩]
  | _ => []

/-- The rings to which a write thread has pointers. -/
def WrPc.rings : WrPc → List ℕ
  | .writing r _ | .written r | .writing_wrthru r _ => [r]
  | _ => []

/-- The messages of a ring. -/
def in_ring (r : ℕ) (entries : List Entry) : List Message :=
  (entries.filter (·.ring = r)).map Entry.msg

/-- The places that a normal ring may be in, each with the state that belongs to it. -/
def places (idle : List ℕ) (active : Option ℕ) (lock drained : List ℕ) :
    List (ℕ × RingState) :=
  idle.map (·, .IDLE) ++ active.toList.map (·, .ACTIVE) ++ (lock ++ drained).map (·, .LOCKED)

namespace Buffers

def state_of (b : Buffers) (r : ℕ) : Option RingState := (b.ring r).map Ring.state

def held (b : Buffers) (r : ℕ) : List Message := ((b.ring r).map Ring.msgs).getD []

end Buffers

/-- Every normal ring is in exactly one place, and its state says so. -/
structure Placed (b : Buffers) (normal : List ℕ) (wr : ℕ) (idle lock drained : List ℕ) :
    Prop where
  idleqp : b.idleqp = some idle
  lockqp : b.lockqp = some lock
  wrthruring : b.wrthruring = some wr
  rings : b.rings = normal ++ [wr]
  num_rings : b.num_rings = normal.length
  nodup : (normal ++ [wr]).Nodup
  perm : ((places idle b.activering lock drained).map Prod.fst).Perm normal
  state : ∀ p ∈ places idle b.activering lock drained, b.state_of p.1 = some p.2
  wrthru_state : b.state_of wr = some .WRTHRU
  below : ∀ r ∈ normal ++ [wr], r < b.next

/-- What was put into a ring is what has left it, in order, and then what it holds. What has
left is what was written or is about to be, in the same order, what puts dropped and what was
lost. -/
def Accounted (b : Buffers) (flight : List Entry) (r : ℕ) : Prop :=
  ∃ gone, in_ring r b.puts = gone ++ b.held r ∧
    (in_ring r (b.file ++ flight) ++ in_ring r (b.drops.map Drop.entry) ++
      in_ring r b.lost).Perm gone ∧
    (in_ring r (b.file ++ flight)).Sublist gone

/-- The messages that the rings accepted are accounted for. Puts drop from active rings only,
and only what was put before. -/
structure Ledger (b : Buffers) (wr : ℕ) (flight : List Entry) : Prop where
  ids : b.puts.map (·.msg.id) = List.range b.puts.length
  bound : ∀ e ∈ b.puts ++ b.file ++ b.lost ++ b.drops.map Drop.entry, e.ring < b.next
  drops : ∀ d ∈ b.drops, d.state = .ACTIVE ∧ d.entry.msg.id < d.by_
  wrthru : ∀ d ∈ b.drops, d.entry.ring ≠ wr
  account : ∀ r ∈ b.rings, Accounted b flight r

/-- Both, while the write thread is at `pc`. -/
structure Kept (b : Buffers) (normal : List ℕ) (wr : ℕ) (idle lock : List ℕ) (pc : WrPc) :
    Prop where
  placed : Placed b normal wr idle lock pc.drained
  ledger : Ledger b wr pc.flight
  pointers : ∀ r ∈ pc.rings, r ∈ normal ++ [wr]

/-- No memory comes into use. -/
def NoAlloc (b b' : Buffers) : Prop :=
  b'.next = b.next ∧ ∀ r, b.ring r = none → b'.ring r = none

theorem NoAlloc.refl (b : Buffers) : NoAlloc b b := ⟨rfl, fun _ h => h⟩

/-- Nor is a message lost. -/
structure Frame (b b' : Buffers) : Prop where
  memory : NoAlloc b b'
  lost : b'.lost = b.lost

theorem Frame.refl (b : Buffers) : Frame b b := ⟨NoAlloc.refl b, rfl⟩

theorem Frame.trans {b b' b'' : Buffers} (h : Frame b b') (h' : Frame b' b'') : Frame b b'' :=
  ⟨⟨h'.memory.1.trans h.memory.1, fun r hr => h'.memory.2 r (h.memory.2 r hr)⟩,
    h'.lost.trans h.lost⟩

section Lists

variable {r : ℕ} {entries more : List Entry} {e : Entry} {active : Option ℕ}
  {idle lock drained : List ℕ}

@[simp] theorem in_ring_nil : in_ring r [] = [] := rfl

@[simp] theorem in_ring_append :
    in_ring r (entries ++ more) = in_ring r entries ++ in_ring r more := by
  simp only [in_ring, List.filter_append, List.map_append]

theorem in_ring_singleton : in_ring r [e] = if e.ring = r then [e.msg] else [] := by
  by_cases h : e.ring = r <;> simp [in_ring, h]

theorem in_ring_eq_nil (h : ∀ e ∈ entries, e.ring ≠ r) : in_ring r entries = [] := by
  rw [in_ring, List.filter_eq_nil_iff.mpr fun e he => by simp [h e he], List.map_nil]

theorem in_ring_map_mk (msgs : List Message) (q : ℕ) :
    in_ring r (msgs.map (Entry.mk q)) = if q = r then msgs else [] := by
  induction msgs with
  | nil => simp
  | cons m msgs ih =>
    have hcons : (m :: msgs).map (Entry.mk q) = [⟨q, m⟩] ++ msgs.map (Entry.mk q) := rfl
    rw [hcons, in_ring_append, ih, in_ring_singleton]
    split_ifs <;> rfl

theorem mem_in_ring {m : Message} : m ∈ in_ring r entries ↔ ⟨r, m⟩ ∈ entries := by
  simp only [in_ring, List.mem_map, List.mem_filter, decide_eq_true_eq]
  constructor
  · rintro ⟨e, ⟨he, rfl⟩, rfl⟩
    exact he
  · exact fun h => ⟨⟨r, m⟩, ⟨h, rfl⟩, rfl⟩

theorem mem_parts {xs ys zs : List Entry} (h : e ∈ entries ∨ e ∈ xs ∨ e ∈ ys ∨ e ∈ zs) :
    e ∈ entries ++ xs ++ ys ++ zs := by
  simpa only [List.mem_append, or_assoc] using h

theorem places_activate :
    (places idle (some r) lock drained).Perm ((r, .ACTIVE) :: places idle none lock drained) := by
  simp only [places, Option.toList_some, Option.toList_none, List.map_nil, List.map_cons,
    List.append_assoc, List.nil_append, List.singleton_append]
  exact List.perm_middle

theorem places_lock :
    (places idle active (lock ++ [r]) drained).Perm
      ((r, .LOCKED) :: places idle active lock drained) := by
  simp only [places, List.map_append, List.map_cons, List.append_assoc, List.singleton_append]
  simp only [← List.append_assoc]
  exact List.perm_middle

theorem places_pop :
    (places idle active (r :: lock) drained).Perm
      ((r, .LOCKED) :: places idle active lock drained) := by
  simp only [places, List.map_append, List.map_cons, List.cons_append]
  exact List.perm_middle

theorem places_drain :
    (places idle active lock [r]).Perm ((r, .LOCKED) :: places idle active lock []) := by
  simp only [places, List.map_append, List.map_cons, List.map_nil, List.append_nil,
    ← List.append_assoc]
  exact List.perm_append_singleton _ _

theorem places_idle :
    (places (idle ++ [r]) active lock drained).Perm
      ((r, .IDLE) :: places idle active lock drained) := by
  simp only [places, List.map_append, List.map_cons, List.map_nil, List.append_assoc,
    List.singleton_append]
  exact List.perm_middle

end Lists

section SetRing

variable {b : Buffers} {r q : ℕ} {ring : Ring}

@[simp] theorem set_ring_self : (b.set_ring r ring).ring r = some ring :=
  Function.update_self ..

theorem set_ring_of_ne (h : q ≠ r) : (b.set_ring r ring).ring q = b.ring q :=
  Function.update_of_ne h ..

theorem state_of_set_ring :
    (b.set_ring r ring).state_of q = if q = r then some ring.state else b.state_of q := by
  unfold Buffers.state_of
  split_ifs with h
  · rw [h, set_ring_self, Option.map_some]
  · rw [set_ring_of_ne h]

theorem held_set_ring :
    (b.set_ring r ring).held q = if q = r then ring.msgs else b.held q := by
  unfold Buffers.held
  split_ifs with h
  · rw [h, set_ring_self]
    rfl
  · rw [set_ring_of_ne h]

variable {msglen : ℕ}

theorem put_in_puts :
    (b.put_in r msglen ring).puts = b.puts ++ [⟨r, ⟨b.puts.length, msglen⟩⟩] := rfl

@[simp] theorem put_in_file : (b.put_in r msglen ring).file = b.file := rfl

@[simp] theorem put_in_lost : (b.put_in r msglen ring).lost = b.lost := rfl

theorem put_in_held : (b.put_in r msglen ring).held q =
    if q = r then put Message.msglen ring.size ring.msgs ⟨b.puts.length, msglen⟩ else b.held q :=
  held_set_ring

/-- A ring in use is changed. -/
theorem frame_of_ring {b' : Buffers} {ring' : Ring} (h : b.ring r = some ring')
    (hring : b'.ring = (b.set_ring r ring).ring) (hnext : b'.next = b.next)
    (hlost : b'.lost = b.lost) : Frame b b' := by
  refine ⟨⟨hnext, fun q hq => ?_⟩, hlost⟩
  rw [hring, set_ring_of_ne, hq]
  rintro rfl
  rw [h] at hq
  cases hq

end SetRing

namespace Placed

variable {b b' : Buffers} {normal : List ℕ} {wr r : ℕ} {idle idle' lock lock' drained drained' : List ℕ}
  {ring ring' : Ring} {rest : List (ℕ × RingState)}

theorem normal_nodup (h : Placed b normal wr idle lock drained) : normal.Nodup :=
  (List.nodup_append.mp h.nodup).1

theorem ne_wr (h : Placed b normal wr idle lock drained) (hr : r ∈ normal) : r ≠ wr :=
  (List.nodup_append.mp h.nodup).2.2 r hr wr (List.mem_singleton_self wr)

theorem mem_normal (h : Placed b normal wr idle lock drained) {state : RingState}
    (hr : (r, state) ∈ places idle b.activering lock drained) : r ∈ normal :=
  h.perm.subset (List.mem_map_of_mem hr)

theorem ring_of_mem (h : Placed b normal wr idle lock drained) {state : RingState}
    (hr : (r, state) ∈ places idle b.activering lock drained) :
    ∃ ring, b.ring r = some ring ∧ ring.state = state := by
  obtain ⟨ring, hring, hstate⟩ := Option.map_eq_some_iff.mp (h.state _ hr)
  exact ⟨ring, hring, hstate⟩

theorem ring_wr (h : Placed b normal wr idle lock drained) :
    ∃ ring, b.ring wr = some ring ∧ ring.state = .WRTHRU := by
  obtain ⟨ring, hring, hstate⟩ := Option.map_eq_some_iff.mp h.wrthru_state
  exact ⟨ring, hring, hstate⟩

/-- Every ring of the context is allocated. -/
theorem ring_ne_none (h : Placed b normal wr idle lock drained) (hr : r ∈ b.rings) :
    b.ring r ≠ none := by
  rw [h.rings] at hr
  rcases List.mem_append.mp hr with hr | hr
  · obtain ⟨⟨q, state⟩, hp, rfl⟩ := List.mem_map.mp (h.perm.symm.subset hr)
    obtain ⟨ring, hring, -⟩ := h.ring_of_mem hp
    rw [hring]
    exact Option.some_ne_none ring
  · obtain ⟨ring, hring, -⟩ := h.ring_wr
    rw [List.mem_singleton.mp hr, hring]
    exact Option.some_ne_none ring

/-- A ring moves from one place to another and takes on the state of that place. -/
theorem move (h : Placed b normal wr idle lock drained) {x y : RingState}
    (hfrom : (places idle b.activering lock drained).Perm ((r, x) :: rest))
    (hto : (places idle' b'.activering lock' drained').Perm ((r, y) :: rest))
    (hring : b'.ring = (b.set_ring r ring').ring) (hy : ring'.state = y)
    (hidle : b'.idleqp = some idle') (hlock : b'.lockqp = some lock')
    (hwr : b'.wrthruring = b.wrthruring) (hrings : b'.rings = b.rings)
    (hnum : b'.num_rings = b.num_rings) (hnext : b'.next = b.next) :
    Placed b' normal wr idle' lock' drained' := by
  have hperm := (hfrom.map Prod.fst).symm.trans h.perm
  have hnodup : (r :: rest.map Prod.fst).Nodup := hperm.nodup_iff.mpr h.normal_nodup
  have hnormal : r ∈ normal := hperm.subset List.mem_cons_self
  have hstate : ∀ q, b'.state_of q = (b.set_ring r ring').state_of q := by
    intro q
    rw [Buffers.state_of, hring, Buffers.state_of]
  refine ⟨hidle, hlock, hwr.trans h.wrthruring, hrings.trans h.rings, hnum.trans h.num_rings,
    h.nodup, (hto.map Prod.fst).trans hperm, ?_, ?_, hnext ▸ h.below⟩
  · intro p hp
    rw [hstate, state_of_set_ring]
    rcases List.mem_cons.mp (hto.subset hp) with rfl | hmem
    · rw [if_pos rfl, hy]
    · have hne : p.1 ≠ r := fun heq =>
        (List.nodup_cons.mp hnodup).1 (heq ▸ List.mem_map_of_mem hmem)
      rw [if_neg hne]
      exact h.state p (hfrom.symm.subset (List.mem_cons_of_mem _ hmem))
  · rw [hstate, state_of_set_ring, if_neg (h.ne_wr hnormal).symm]
    exact h.wrthru_state

/-- Only the messages of rings change. -/
theorem keep (h : Placed b normal wr idle lock drained) (hring : b.ring r = some ring)
    (hset : b'.ring = (b.set_ring r ring').ring) (hstate : ring'.state = ring.state)
    (hidle : b'.idleqp = b.idleqp) (hlock : b'.lockqp = b.lockqp)
    (hactive : b'.activering = b.activering) (hwr : b'.wrthruring = b.wrthruring)
    (hrings : b'.rings = b.rings) (hnum : b'.num_rings = b.num_rings)
    (hnext : b'.next = b.next) : Placed b' normal wr idle lock drained := by
  have hsame : ∀ q, b'.state_of q = b.state_of q := by
    intro q
    have hq : b'.state_of q = (b.set_ring r ring').state_of q := by
      rw [Buffers.state_of, hset, Buffers.state_of]
    rw [hq, state_of_set_ring]
    split_ifs with heq
    · rw [heq, hstate, Buffers.state_of, hring, Option.map_some]
    · rfl
  refine ⟨hidle.trans h.idleqp, hlock.trans h.lockqp, hwr.trans h.wrthruring,
    hrings.trans h.rings, hnum.trans h.num_rings, h.nodup, hactive ▸ h.perm, ?_, ?_,
    hnext ▸ h.below⟩
  · intro p hp
    rw [hsame]
    exact h.state p (hactive ▸ hp)
  · rw [hsame]
    exact h.wrthru_state

theorem write_message (h : Placed b normal wr idle lock drained) {opened : Bool} {e : Entry} :
    Placed (b.write_message opened e) normal wr idle lock drained := by
  cases opened <;> exact ⟨h.idleqp, h.lockqp, h.wrthruring, h.rings, h.num_rings, h.nodup, h.perm,
    h.state, h.wrthru_state, h.below⟩

end Placed

namespace Ledger

variable {b b' : Buffers} {wr r : ℕ} {flight : List Entry} {ring : Ring} {e : Entry}

/-- Nothing happens to the messages. -/
theorem keep (h : Ledger b wr flight) (hheld : ∀ q, b'.held q = b.held q)
    (hputs : b'.puts = b.puts) (hdrops : b'.drops = b.drops) (hfile : b'.file = b.file)
    (hlost : b'.lost = b.lost) (hrings : b'.rings = b.rings) (hnext : b'.next = b.next) :
    Ledger b' wr flight := by
  refine ⟨hputs ▸ h.ids, ?_, hdrops ▸ h.drops, hdrops ▸ h.wrthru, ?_⟩
  · rw [hputs, hfile, hlost, hdrops, hnext]
    exact h.bound
  · intro q hq
    rw [Accounted, hheld, hputs, hdrops, hfile, hlost]
    exact h.account q (hrings ▸ hq)

/-- A ring holds what was put before. -/
theorem id_lt_of_mem_held (h : Ledger b wr flight) (hr : r ∈ b.rings) {m : Message}
    (hm : m ∈ b.held r) : m.id < b.puts.length := by
  obtain ⟨gone, hputs, -⟩ := h.account r hr
  have hmem : ⟨r, m⟩ ∈ b.puts :=
    mem_in_ring.mp (hputs ▸ List.mem_append_right gone hm)
  have hid : m.id ∈ b.puts.map (·.msg.id) := List.mem_map.mpr ⟨⟨r, m⟩, hmem, rfl⟩
  rw [h.ids] at hid
  exact List.mem_range.mp hid

/-- A put, which drops from an active ring or not at all. -/
theorem put_in (h : Ledger b wr flight) (hr : r ∈ b.rings) (hnext : r < b.next)
    (hring : b.ring r = some ring) (msglen : ℕ)
    (hdrop : excess Message.msglen ring.size msglen ring.msgs = 0 ∨
      ring.state = .ACTIVE ∧ r ≠ wr) :
    Ledger (b.put_in r msglen ring) wr flight := by
  have hheld : b.held r = ring.msgs := by rw [Buffers.held, hring]; rfl
  generalize hk : excess Message.msglen ring.size msglen ring.msgs = k at hdrop
  have hdrops : (b.put_in r msglen ring).drops =
      b.drops ++ (ring.msgs.take k).map fun m => ⟨⟨r, m⟩, ring.state, b.puts.length⟩ := by
    rw [← hk]
    rfl
  have hentries : (b.put_in r msglen ring).drops.map Drop.entry =
      b.drops.map Drop.entry ++ (ring.msgs.take k).map (Entry.mk r) := by
    rw [hdrops, List.map_append, List.map_map]
    rfl
  refine ⟨?_, ?_, ?_, ?_, ?_⟩
  · rw [put_in_puts, List.map_append, h.ids, List.length_append, List.length_singleton,
      List.range_succ]
    rfl
  · intro e he
    rw [put_in_puts, hentries] at he
    simp only [put_in_file, put_in_lost, List.mem_append, List.mem_singleton] at he
    rcases he with (((he | rfl) | he) | he) | he | he
    · exact h.bound e (mem_parts (.inl he))
    · exact hnext
    · exact h.bound e (mem_parts (.inr (.inl he)))
    · exact h.bound e (mem_parts (.inr (.inr (.inl he))))
    · exact h.bound e (mem_parts (.inr (.inr (.inr he))))
    · obtain ⟨m, -, rfl⟩ := List.mem_map.mp he
      exact hnext
  · intro d hd
    rw [hdrops] at hd
    rcases List.mem_append.mp hd with hd | hd
    · exact h.drops d hd
    · obtain ⟨m, hm, rfl⟩ := List.mem_map.mp hd
      have hmem : m ∈ ring.msgs := List.mem_of_mem_take hm
      rcases hdrop with rfl | ⟨hactive, -⟩
      · exact absurd hm List.not_mem_nil
      · exact ⟨hactive, h.id_lt_of_mem_held hr (hheld ▸ hmem)⟩
  · intro d hd
    rw [hdrops] at hd
    rcases List.mem_append.mp hd with hd | hd
    · exact h.wrthru d hd
    · obtain ⟨m, hm, rfl⟩ := List.mem_map.mp hd
      rcases hdrop with rfl | ⟨-, hne⟩
      · exact absurd hm List.not_mem_nil
      · exact hne
  · intro q hq
    obtain ⟨gone, hputs, hperm, hsub⟩ := h.account q hq
    rw [Accounted, hentries, put_in_puts, put_in_file, put_in_lost, put_in_held, in_ring_append,
      @in_ring_append q (b.drops.map Drop.entry), in_ring_singleton, in_ring_map_mk]
    by_cases hqr : q = r
    · subst hqr
      simp only [if_true]
      refine ⟨gone ++ ring.msgs.take k, ?_, ?_, hsub.trans (List.sublist_append_left _ _)⟩
      · rw [hputs, hheld, List.append_assoc, List.append_assoc, put, hk, ← List.append_assoc (ring.msgs.take k),
          List.take_append_drop]
      · refine List.Perm.trans ?_ (hperm.append_right _)
        simp only [List.append_assoc]
        exact ((List.perm_append_comm).append_left _).append_left _
    · simp only [if_neg hqr, if_neg (Ne.symm hqr), List.append_nil]
      exact ⟨gone, hputs, hperm, hsub⟩

/-- The write thread pops the oldest message of a ring. -/
theorem pop (h : Ledger b wr []) {m : Message} {msgs : List Message}
    (hring : b.ring r = some ring) (hmsgs : ring.msgs = m :: msgs) :
    Ledger (b.set_ring r { ring with msgs }) wr [⟨r, m⟩] := by
  have hheld : b.held r = m :: msgs := by rw [Buffers.held, hring, ← hmsgs]; rfl
  refine ⟨h.ids, h.bound, h.drops, h.wrthru, fun q hq => ?_⟩
  obtain ⟨gone, hputs, hperm, hsub⟩ := h.account q hq
  rw [List.append_nil] at hperm hsub
  rw [Accounted, in_ring_append, in_ring_singleton, held_set_ring]
  show ∃ gone, in_ring q b.puts = _ ∧ (in_ring q b.file ++ _ ++ _ ++ _).Perm gone ∧
    (in_ring q b.file ++ _).Sublist gone
  by_cases hqr : q = r
  · subst hqr
    rw [if_pos rfl, if_pos rfl]
    refine ⟨gone ++ [m], ?_, ?_, hsub.append_right [m]⟩
    · rw [hputs, hheld, List.append_assoc, List.singleton_append]
    · refine List.Perm.trans ?_ (hperm.append_right _)
      simp only [List.append_assoc]
      exact (List.perm_append_comm.trans (by simp only [List.append_assoc]; rfl)).append_left _
  · rw [if_neg (Ne.symm hqr), if_neg hqr, List.append_nil]
    exact ⟨gone, hputs, hperm, hsub⟩

theorem bound_write_message (h : Ledger b wr flight) (hnext : e.ring < b.next) (opened : Bool) :
    let b' := b.write_message opened e
    ∀ e' ∈ b'.puts ++ b'.file ++ b'.lost ++ b'.drops.map Drop.entry, e'.ring < b'.next := by
  intro b' e' he
  have hparts : e' = e ∨ e' ∈ b.puts ++ b.file ++ b.lost ++ b.drops.map Drop.entry := by
    cases opened with
    | true =>
      have he : e' ∈ b.puts ++ (b.file ++ [e]) ++ b.lost ++ b.drops.map Drop.entry := he
      simp only [List.mem_append, List.mem_singleton] at he ⊢
      tauto
    | false =>
      have he : e' ∈ b.puts ++ b.file ++ (b.lost ++ [e]) ++ b.drops.map Drop.entry := he
      simp only [List.mem_append, List.mem_singleton] at he ⊢
      tauto
  have hsame : b'.next = b.next := by cases opened <;> rfl
  rw [hsame]
  rcases hparts with rfl | he
  · exact hnext
  · exact h.bound e' he

/-- The write thread writes the message that it popped. -/
theorem write_message (h : Ledger b wr [e]) (hnext : e.ring < b.next) (opened : Bool) :
    Ledger (b.write_message opened e) wr [] := by
  have hbound := h.bound_write_message hnext opened
  cases opened with
  | true =>
    refine ⟨h.ids, hbound, h.drops, h.wrthru, fun q hq => ?_⟩
    have hacc := h.account q hq
    unfold Accounted at hacc ⊢
    rw [List.append_nil]
    exact hacc
  | false =>
    refine ⟨h.ids, hbound, h.drops, h.wrthru, fun q hq => ?_⟩
    obtain ⟨gone, hputs, hperm, hsub⟩ := h.account q hq
    rw [in_ring_append] at hsub
    rw [Accounted, List.append_nil]
    refine ⟨gone, hputs, ?_, (List.sublist_append_left _ _).trans hsub⟩
    show (in_ring q b.file ++ _ ++ in_ring q (b.lost ++ [e])).Perm gone
    refine List.Perm.trans ?_ hperm
    simp only [in_ring_append, List.append_assoc]
    refine List.Perm.append_left _ ?_
    rw [← List.append_assoc]
    exact List.perm_append_comm

/-- A thread writes a message of a ring that is not the context's any more. -/
theorem write_stale (h : Ledger b wr flight) (hnext : e.ring < b.next) (hring : e.ring ∉ b.rings)
    (opened : Bool) : Ledger (b.write_message opened e) wr flight := by
  have hbound := h.bound_write_message hnext opened
  have hnone : ∀ q ∈ b.rings, in_ring q [e] = [] := by
    intro q hq
    rw [in_ring_singleton, if_neg]
    rintro rfl
    exact hring hq
  cases opened with
  | true =>
    refine ⟨h.ids, hbound, h.drops, h.wrthru, fun q hq => ?_⟩
    have hacc := h.account q hq
    unfold Accounted at hacc ⊢
    show ∃ gone, in_ring q b.puts = gone ++ b.held q ∧
      (in_ring q (b.file ++ [e] ++ flight) ++ _ ++ _).Perm gone ∧
      (in_ring q (b.file ++ [e] ++ flight)).Sublist gone
    rw [in_ring_append, in_ring_append, hnone q hq, List.append_nil, ← in_ring_append]
    exact hacc
  | false =>
    refine ⟨h.ids, hbound, h.drops, h.wrthru, fun q hq => ?_⟩
    have hacc := h.account q hq
    unfold Accounted at hacc ⊢
    show ∃ gone, in_ring q b.puts = gone ++ b.held q ∧
      (_ ++ _ ++ in_ring q (b.lost ++ [e])).Perm gone ∧ _
    have hlost : in_ring q (b.lost ++ [e]) = in_ring q b.lost := by
      rw [in_ring_append, hnone q hq, List.append_nil]
    rw [hlost]
    exact hacc

end Ledger

end pwrapi.log
