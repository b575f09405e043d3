import PowerApi.Lib.CyclicBuffer

open CyclicBuffer

namespace pwrapi.log

abbrev Bytes := List UInt8

/-- A ring without its state, which the functions here leave alone. `buf` has the bytes that
were allocated for it. -/
structure Ringbuf where
  size : UInt32
  wridx : UInt32
  rdidx : UInt32
  buf : Bytes
  deriving DecidableEq, Repr

/-- A `uint32_t` in memory, low byte first. -/
def u32 (bytes : Bytes) : UInt32 :=
  bytes.foldr (fun b n => b.toUInt32 + 256 * n) 0

def load_u32 (mem : Bytes) (i : ℕ) : Option UInt32 :=
  (read mem i 4).map u32

/-- The field `msglen` of a message, its first. -/
def msglen (msg : Bytes) : UInt32 :=
  u32 (msg.take 4)

/-- `_mtx_init_ring`, with what the allocated buffer happens to contain. -/
def mtx_init_ring (size : UInt32) (buf : Bytes) : Ringbuf :=
  { size, wridx := 0, rdidx := 0, buf }

/-- `_mtx_ringspace`. -/
def mtx_ringspace (ring : Ringbuf) : UInt32 :=
  let old_wridx := if ring.wridx < ring.rdidx then ring.wridx + ring.size else ring.wridx
  ring.size - (old_wridx - ring.rdidx)

/-- `memcpy` into the message, unless the message is to be discarded. -/
def copy_out (keep : Bool) (mem : Bytes) (i : ℕ) (n : UInt32) : Option Bytes :=
  if keep then read mem i n.toNat else some []

/-- `_mtx_getmessage`: what it copies out, if there is a message. It discards the message
where `keep` is not set, which is where `msg` is a null pointer. `none` is an access outside
of the buffer. -/
def mtx_getmessage (ring : Ringbuf) (keep : Bool) : Option (Option Bytes × Ringbuf) :=
  if ring.wridx = ring.rdidx then some (none, ring)
  else do
    let msglen ← load_u32 ring.buf ring.rdidx.toNat
    if ring.rdidx + msglen ≥ ring.size then
      let len := ring.size - ring.rdidx
      let part ← copy_out keep ring.buf ring.rdidx.toNat len
      let rest ← copy_out keep ring.buf 0 (msglen - len)
      some (some (part ++ rest), { ring with rdidx := msglen - len })
    else
      let msg ← copy_out keep ring.buf ring.rdidx.toNat msglen
      some (some msg, { ring with rdidx := ring.rdidx + msglen })

/-- The loop that discards messages. A run of it that has not ended after as many rounds as
there are places for `rdidx` never ends, so `none` stands for that too. -/
def discard : ℕ → UInt32 → Ringbuf → Option Ringbuf
  | 0, _, _ => none
  | fuel + 1, msglen, ring =>
    if mtx_ringspace ring ≤ msglen then do
      let (_, ring) ← mtx_getmessage ring false
      discard fuel msglen ring
    else some ring

/-- `_mtx_putmessage` for a block of memory that starts with the message. -/
def mtx_putmessage (ring : Ringbuf) (msg : Bytes) : Option Ringbuf := do
  let msglen ← load_u32 msg 0
  let ring ← discard (ring.size.toNat + 1) msglen ring
  if ring.wridx + msglen ≥ ring.size then
    let len := ring.size - ring.wridx
    let buf ← write ring.buf ring.wridx.toNat (← read msg 0 len.toNat)
    let buf ← write buf 0 (← read msg len.toNat (msglen - len).toNat)
    some { ring with buf, wridx := msglen - len }
  else
    let buf ← write ring.buf ring.wridx.toNat (← read msg 0 msglen.toNat)
    some { ring with buf, wridx := ring.wridx + msglen }

/-- A call on a ring. -/
inductive RingCall where
  | put (msg : Bytes)
  | get
  deriving DecidableEq, Repr

/-- A call with what it returns: a put returns nothing, and a get the message it copied out,
if there was one. -/
def ring_call : RingCall → Ringbuf → Option (Option Bytes × Ringbuf)
  | .put msg, ring => do
    let ring ← mtx_putmessage ring msg
    some (none, ring)
  | .get, ring => mtx_getmessage ring true

end pwrapi.log
