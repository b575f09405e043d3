import PowerApi.Log.RingSpec

open BoundedQueue Execution

namespace pwrapi.log

/-- What a call does to a bounded queue of messages, oldest first. A get returns and removes
the oldest. A put drops as few of the oldest as leave more than its message needs. -/
def FifoStep (size : ℕ) (msgs : List Bytes) (step : RingCall × Option Bytes)
    (msgs' : List Bytes) : Prop :=
  match step.1 with
  | .get => step.2 = msgs.head? ∧ msgs' = msgs.tail
  | .put msg => step.2 = none ∧ ∃ k ≤ msgs.length, msgs' = msgs.drop k ++ [message msg] ∧
      (message msg).length < size - (msgs.drop k).flatten.length ∧
      ∀ j < k, size - (msgs.drop j).flatten.length ≤ (message msg).length

/-- An index at which the four bytes of a length are in one piece. -/
structure IndexOk (size idx : UInt32) : Prop where
  lt : idx.toNat < size.toNat
  dvd : 8 ∣ idx.toNat
  whole : idx.toNat + 4 ≤ size.toNat

/-- The calls that a ring of a given size is made for. -/
def CallOk (size : UInt32) : RingCall → Prop
  | .put msg => StartsMessage msg ∧ msglen msg < size
  | .get => True

instance (size : UInt32) : (c : RingCall) → Decidable (CallOk size c)
  | .put _ => inferInstanceAs (Decidable (_ ∧ _))
  | .get => inferInstanceAs (Decidable True)

variable {ring ring' : Ringbuf} {msgs : List Bytes} {c : RingCall}

theorem Holds.indexOk (h : Holds ring msgs) :
    IndexOk ring.size ring.rdidx ∧ IndexOk ring.size ring.wridx := by
  have hsize := h.size_dvd
  have hrdidx := h.rdidx_lt
  have hwridx := h.wridx_lt
  have hrdvd := h.rdidx_dvd
  have hwdvd := h.wridx_dvd
  exact ⟨⟨hrdidx, hrdvd, by omega⟩, ⟨hwridx, hwdvd, by omega⟩⟩

theorem holds_init {size : UInt32} {buf : Bytes} (hdvd : 8 ∣ size.toNat)
    (hlt : size.toNat < 2 ^ 31) (hpos : 0 < size.toNat) (hbuf : buf.length = size.toNat) :
    Holds (mtx_init_ring size buf) [] := by
  refine ⟨hdvd, hlt, hbuf, Nat.dvd_zero 8, hpos, fun m hm => absurd hm List.not_mem_nil, hpos,
    ?_, List.nil_prefix⟩
  rw [CyclicBuffer.advance, if_pos (by exact hpos)]
  rfl

/-- One call keeps the ring and the queue together. -/
theorem Holds.ring_call (h : Holds ring msgs) (hc : CallOk ring.size c) :
    ∃ r ring' msgs', log.ring_call c ring = some (r, ring') ∧ ring'.size = ring.size ∧
      FifoStep ring.size.toNat msgs (c, r) msgs' ∧ Holds ring' msgs' := by
  cases c with
  | get =>
    cases msgs with
    | nil => exact ⟨none, ring, [], h.getmessage_nil true, rfl, ⟨rfl, rfl⟩, h⟩
    | cons m msgs =>
      obtain ⟨rdidx, hget, htail⟩ := h.getmessage_cons true
      exact ⟨some m, _, msgs, hget, rfl, ⟨rfl, rfl⟩, htail⟩
  | put msg =>
    obtain ⟨hmsg, hsize⟩ := hc
    obtain ⟨ring', hput, hsize', hholds⟩ := h.putmessage hmsg hsize
    refine ⟨none, ring', _, ?_, hsize', ⟨rfl, _, excess_le_length _ msgs, rfl, ?_, ?_⟩, hholds⟩
    · rw [log.ring_call, hput]
      rfl
    · have hneed : (message msg).length < ring.size.toNat := by
        rw [hmsg.length_message]
        exact UInt32.lt_iff_toNat_lt.mp hsize
      have hspace := @lt_space_drop_excess _ List.length _ _ hneed msgs
      rwa [space, total, ← List.length_flatten] at hspace
    · intro j hj
      have hspace := space_drop_le_of_lt_excess hj
      rwa [space, total, ← List.length_flatten] at hspace

theorem Holds.run_calls (h : Holds ring msgs) {calls : List RingCall}
    (hcalls : ∀ c ∈ calls, CallOk ring.size c) :
    (run_calls log.ring_call calls ring).map (·.1.1) = calls ∧
    ∃ fifo, EachStep (FifoStep ring.size.toNat) msgs fifo ∧
      List.Forall₂ (fun x y => x.1 = y.1 ∧ x.2.size = ring.size ∧ Holds x.2 y.2)
        (run_calls log.ring_call calls ring) fifo := by
  induction calls generalizing ring msgs with
  | nil => exact ⟨rfl, [], trivial, .nil⟩
  | cons c calls ih =>
    obtain ⟨r, ring', msgs', hcall, hsize, hstep, hholds⟩ :=
      h.ring_call (hcalls c List.mem_cons_self)
    obtain ⟨hmap, fifo, hfifo, hall⟩ := ih hholds
      fun d hd => hsize ▸ hcalls d (List.mem_cons_of_mem c hd)
    rw [hsize] at hfifo hall
    rw [Execution.run_calls, hcall]
    exact ⟨congrArg (c :: ·) hmap, ((c, r), msgs') :: fifo, ⟨hstep, hfifo⟩,
      .cons ⟨rfl, hsize, hholds⟩ hall⟩

/-- A ring is a bounded queue: its calls return what the queue's return, the ring holds the
messages of the queue after each, and its indices stay where a length can be read. -/
theorem ring_refines_fifo (size : UInt32) (buf : Bytes) (calls : List RingCall)
    (hdvd : 8 ∣ size.toNat) (hlt : size.toNat < 2 ^ 31) (hpos : 0 < size.toNat)
    (hbuf : buf.length = size.toNat) (hcalls : ∀ c ∈ calls, CallOk size c) :
    let run := run_calls ring_call calls (mtx_init_ring size buf)
    run.map (·.1.1) = calls ∧
    (∃ fifo, EachStep (FifoStep size.toNat) [] fifo ∧
      List.Forall₂ (fun x y => x.1 = y.1 ∧ Holds x.2 y.2) run fifo) ∧
    ∀ x ∈ run, IndexOk size x.2.rdidx ∧ IndexOk size x.2.wridx := by
  intro run
  obtain ⟨hmap, fifo, hfifo, hall⟩ := (holds_init hdvd hlt hpos hbuf).run_calls hcalls
  refine ⟨hmap, ⟨fifo, hfifo, hall.imp fun x y ⟨heq, _, hholds⟩ => ⟨heq, hholds⟩⟩, ?_⟩
  intro x hx
  obtain ⟨i, hi, rfl⟩ := List.mem_iff_getElem.mp hx
  obtain ⟨-, hsize, hholds⟩ := hall.get hi (hall.length_eq ▸ hi)
  have hindex := hholds.indexOk
  rw [hsize] at hindex
  exact hindex

/-- In a ring of forty bytes a second message of thirty-two overwrites the first, around the
end of the buffer. -/
theorem ring_refines_fifo_forty_bytes :
    let first : Bytes := 32 :: List.replicate 31 0
    let second : Bytes := 32 :: 0 :: 0 :: 0 :: List.replicate 28 7
    let calls := [RingCall.get, .put first, .put second, .get, .get]
    let run := run_calls ring_call calls (mtx_init_ring 40 (List.replicate 40 1))
    run.map (·.1.2) = [none, none, none, some second, none] ∧ run.map (·.1.1) = calls := by
  intro first second calls run
  refine ⟨by decide +kernel, ?_⟩
  exact (ring_refines_fifo 40 (List.replicate 40 1) calls (by decide) (by decide) (by decide)
    (by decide) (by decide +kernel)).1

end pwrapi.log
