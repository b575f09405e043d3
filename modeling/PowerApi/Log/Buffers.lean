import Mathlib.Logic.Function.Basic
import PowerApi.Lib.BoundedQueue

open BoundedQueue

namespace pwrapi.log

inductive RingState where
  | IDLE | ACTIVE | LOCKED | WRTHRU
  deriving DecidableEq, Repr

/-- A message in a ring, numbered in the order in which the rings accepted messages. -/
structure Message where
  id : ℕ
  msglen : ℕ
  deriving DecidableEq, Repr

/-- A ring as the queue of messages that it holds. -/
structure Ring where
  state : RingState
  size : ℕ
  msgs : List Message
  deriving DecidableEq, Repr

/-- A message with the ring that it was put into. -/
structure Entry where
  ring : ℕ
  msg : Message
  deriving DecidableEq, Repr

/-- A message that the put of message `by_` dropped from a ring, which was in the given state. -/
structure Drop where
  entry : Entry
  state : RingState
  by_ : ℕ
  deriving DecidableEq, Repr

/-- The rings of a context, its queues and its pointers to rings, where `none` is null.
`ring` is the memory: the rings that are allocated and not freed. Below `next` every address
has been used. Besides these there is what became of the messages: all that were put, those
that puts dropped, and those that the write thread wrote to the file or, without a file,
lost. -/
structure Buffers where
  ring : ℕ → Option Ring := fun _ => none
  next : ℕ := 0
  rings : List ℕ := []
  num_rings : ℕ := 0
  lockqp : Option (List ℕ) := none
  idleqp : Option (List ℕ) := none
  activering : Option ℕ := none
  wrthruring : Option ℕ := none
  puts : List Entry := []
  drops : List Drop := []
  file : List Entry := []
  lost : List Entry := []

/-- `WRTHRU_SIZE`. -/
def WRTHRU_SIZE : ℕ := (4096 - 128) * 100

namespace Buffers

/-- The rings that `_mtx_pmlog_init` allocates, after the normal ones the write-through ring. -/
def alloc (b : Buffers) (num_rings ring_size : ℕ) : Buffers :=
  let wr := b.next + num_rings
  { b with
    ring := fun r =>
      if b.next ≤ r ∧ r < wr then some ⟨.IDLE, ring_size, []⟩
      else if r = wr then some ⟨.WRTHRU, WRTHRU_SIZE, []⟩
      else b.ring r
    next := wr + 1
    rings := List.range' b.next num_rings ++ [wr]
    num_rings := num_rings
    lockqp := some []
    idleqp := some (List.range' b.next num_rings)
    wrthruring := some wr }

/-- What `_mtx_pmlog_term` frees and clears. -/
def free (b : Buffers) : Buffers :=
  { b with
    ring := fun r => if r ∈ b.rings then none else b.ring r
    lockqp := none
    idleqp := none
    num_rings := 0
    rings := []
    activering := none
    wrthruring := none }

/-- The memory with a ring changed. -/
def set_ring (b : Buffers) (r : ℕ) (ring : Ring) : Buffers :=
  { b with ring := Function.update b.ring r (some ring) }

-- In what follows `none` is an access to a freed ring or through a null pointer. A function
-- that may have to wait gives `some none` where it does.

/-- The condition of the loop in `_mtx_getwrthruring`. -/
def getwrthruring (b : Buffers) (msglen : ℕ) : Option (Option ℕ) := do
  let wr ← b.wrthruring
  let ring ← b.ring wr
  if space Message.msglen ring.size ring.msgs ≤ msglen then some none else some (some wr)

/-- The condition of the loop in `_mtx_getactivering` and what follows the loop. -/
def getactivering (b : Buffers) : Option (Option (ℕ × Buffers)) :=
  match b.activering with
  | some r => some (some (r, b))
  | none => do
    match ← b.idleqp with
    | [] => some none
    | r :: idle =>
      let ring ← b.ring r
      let b := b.set_ring r { ring with state := .ACTIVE }
      some (some (r, { b with idleqp := some idle, activering := some r }))

/-- A new message in a ring, with the oldest dropped that were in its way. -/
def put_in (b : Buffers) (r msglen : ℕ) (ring : Ring) : Buffers :=
  let msg : Message := ⟨b.puts.length, msglen⟩
  let dropped := ring.msgs.take (excess Message.msglen ring.size msglen ring.msgs)
  { b.set_ring r { ring with msgs := put Message.msglen ring.size ring.msgs msg } with
    puts := b.puts ++ [⟨r, msg⟩]
    drops := b.drops ++ dropped.map fun m => ⟨⟨r, m⟩, ring.state, msg.id⟩ }

def putmessage (b : Buffers) (r msglen : ℕ) : Option Buffers := do
  let ring ← b.ring r
  some (b.put_in r msglen ring)

def flushring (b : Buffers) (r : ℕ) : Option Buffers := do
  let ring ← b.ring r
  if ring.state = .ACTIVE then
    let lock ← b.lockqp
    let b := b.set_ring r { ring with state := .LOCKED }
    some { b with lockqp := some (lock ++ [r]), activering := none }
  else some b

/-- `_mtx_getmessage`, with the message if there is one. -/
def getmessage (b : Buffers) (r : ℕ) : Option (Option (Message × Buffers)) := do
  let ring ← b.ring r
  match ring.msgs with
  | [] => some none
  | m :: msgs => some (some (m, b.set_ring r { ring with msgs }))

/-- The write thread is done with a ring and pushes it onto the idle queue. -/
def push_idle (b : Buffers) (r : ℕ) : Option Buffers := do
  let ring ← b.ring r
  let idle ← b.idleqp
  some { b.set_ring r { ring with state := .IDLE } with idleqp := some (idle ++ [r]) }

/-- `_thr_write_message`. -/
def write_message (b : Buffers) (opened : Bool) (e : Entry) : Buffers :=
  if opened then { b with file := b.file ++ [e] } else { b with lost := b.lost ++ [e] }

end Buffers

/-- What a caller does with the active ring once it has it. -/
inductive Work where
  | put (msglen : ℕ) (flush : Bool)
  | flush
  deriving DecidableEq, Repr

/-- The use of the active ring. -/
def use_activering (b : Buffers) (work : Work) : Option (Option Buffers) := do
  match ← b.getactivering with
  | none => some none
  | some (r, b) =>
    match work with
    | .put msglen flush =>
      let b ← b.putmessage r msglen
      if flush then (b.flushring r).map some else some (some b)
    | .flush => (b.flushring r).map some

/-- The use of the write-through ring. -/
def use_wrthruring (b : Buffers) (msglen : ℕ) : Option (Option Buffers) := do
  match ← b.getwrthruring msglen with
  | none => some none
  | some r =>
    let b ← b.putmessage r msglen
    (b.flushring r).map some

/-- Where a write thread is when it does not hold the mutex. While it is writing it has a
message of a ring that it has not written to the file. -/
inductive WrPc where
  | starting | waiting | rotating | exited
  | writing (r : ℕ) (m : Message) | written (r : ℕ)
  | writing_wrthru (r : ℕ) (m : Message) | written_wrthru
  deriving DecidableEq, Repr

/-- A part of the write thread's loop either gives up the mutex or goes on with the next
part, with the value of `didwork`. -/
inductive Turn where
  | release (pc : WrPc)
  | go (didwork : Bool)
  deriving DecidableEq, Repr

/-- The loop over the lock queue, up to the first message. -/
def pop_locked : List ℕ → Bool → Buffers → Option (Turn × Buffers)
  | [], didwork, b => some (.go didwork, b)
  | r :: lock, _, b => do
    let b := { b with lockqp := some lock }
    match ← b.getmessage r with
    | some (m, b) => some (.release (.writing r m), b)
    | none =>
      let b ← b.push_idle r
      pop_locked lock true b

def locked_rings (terminate didwork : Bool) (b : Buffers) : Option (Turn × Buffers) :=
  if terminate then some (.go didwork, b)
  else do
    let lock ← b.lockqp
    pop_locked lock didwork b

/-- The loop over the write-through ring, up to the first message. -/
def wrthru_messages (terminate didwork : Bool) (b : Buffers) : Option (Turn × Buffers) :=
  if terminate then some (.go didwork, b)
  else do
    let wr ← b.wrthruring
    match ← b.getmessage wr with
    | some (m, b) => some (.release (.writing_wrthru wr m), b)
    | none => some (.go didwork, b)

/-- Both loops. -/
def deliver (terminate didwork : Bool) (b : Buffers) : Option (Turn × Buffers) := do
  match ← locked_rings terminate didwork b with
  | (.release pc, b) => some (.release pc, b)
  | (.go didwork, b) => wrthru_messages terminate didwork b

/-- On with a ring after one of its messages is written. -/
def resume_ring (terminate : Bool) (r : ℕ) (b : Buffers) : Option (Turn × Buffers) := do
  match ← if terminate then some none else b.getmessage r with
  | some (m, b) => some (.release (.writing r m), b)
  | none =>
    let b ← b.push_idle r
    deliver terminate true b

/-- From the wake-up of the write thread to the end of its outer loop's body. -/
def pass (terminate rotate : Bool) (b : Buffers) : Option (Turn × Buffers) :=
  if rotate then some (.release .rotating, b) else deliver terminate false b

/-- The outer loop from its condition on. Nobody else has the mutex between two passes, so the
second pass does no work. -/
def passes (terminate rotate : Bool) : ℕ → Bool → Buffers → Option (WrPc × Buffers)
  | 0, _, _ => none
  | n + 1, didwork, b =>
    if terminate then some (.exited, b)
    else if !didwork then some (.waiting, b)
    else do
      match ← pass terminate rotate b with
      | (.release pc, b) => some (pc, b)
      | (.go didwork, b) => passes terminate rotate n didwork b

/-- The outer loop from the end of a part on. -/
def go_on (terminate rotate : Bool) : Turn × Buffers → Option (WrPc × Buffers)
  | (.release pc, b) => some (pc, b)
  | (.go didwork, b) => passes terminate rotate 3 didwork b

end pwrapi.log
