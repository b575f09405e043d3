import Mathlib.Algebra.Group.Nat.Defs
import Mathlib.Data.Finset.Basic
import PowerApi.Lib.Loops

namespace pwrapi.log

/-- What the initialization of a context allocates. The last of the rings is the write-through
ring, which is allocated like the others. -/
inductive Piece where
  | lockqp
  | idleqp
  | rings
  | ring (i : ℕ)
  | td
  | file_path
  deriving DecidableEq, Repr

/-- The field `buf` of a ring. `malloc` leaves it unset. -/
inductive BufPtr where
  | unset
  | null
  | set (piece : Piece)
  deriving DecidableEq, Repr

/-- Which allocations succeed, and whether the thread starts. -/
structure Outcomes where
  alloc : Piece → Bool
  thread : Bool

/-- A context, without what its messages need, with the thread that is to be joined and the memory
that was allocated for it. -/
structure Setup where
  init_count : ℕ := 0
  lockqp : Option (List ℕ) := none
  idleqp : Option (List ℕ) := none
  num_rings : ℕ := 0
  rings : Option (List BufPtr) := none
  activering : Option ℕ := none
  wrthruring : Option ℕ := none
  wrthread_data : Option Piece := none
  thdp : Option Piece := none
  live : Finset Piece := ∅
  deriving DecidableEq

/-- `free`. `none` is a pointer that was not set or is not to allocated memory. -/
def free : BufPtr → Finset Piece → Option (Finset Piece)
  | .unset, _ => none
  | .null, live => some live
  | .set piece, live => if piece ∈ live then some (live.erase piece) else none

/-- `_mtx_free_ring` for the rings in turn. Their index is an `int`, which must not overflow. -/
def free_rings (bufs : List BufPtr) (num_rings : ℕ) (live : Finset Piece) : Option (Finset Piece) :=
  (List.range (num_rings + 1)).foldlM
    (fun live i => do
      let live ← free (← bufs[i]?) live
      if i + 1 < 2 ^ 31 then some live else none)
    live

/-- `g_queue_free`, for a queue that may not be there. -/
def free_queue (queue : Option (List ℕ)) (piece : Piece) (live : Finset Piece) : Option (Finset Piece) :=
  if queue.isSome then free (.set piece) live else some live

def free_ring_memory (s : Setup) (live : Finset Piece) : Option (Finset Piece) :=
  match s.rings with
  | none => some live
  | some bufs => do
    let live ← free_rings bufs s.num_rings live
    free (.set .rings) live

/-- `_mtx_pmlog_term`. -/
def mtx_pmlog_term (force : Bool) (s : Setup) : Option Setup :=
  let s := { s with thdp := none }
  if force = false ∧ s.init_count ≠ 0 ∧ s.init_count - 1 ≠ 0 then
    some { s with init_count := s.init_count - 1 }
  else do
    let live ← free_queue s.lockqp .lockqp s.live
    let live ← free_queue s.idleqp .idleqp live
    let live ← free_ring_memory s live
    some { thdp := s.wrthread_data, live }

/-- The steps of the construction. They end early, with `false`, where one of them fails. -/
abbrev Construct := Setup → Option (Bool × Setup)

def Construct.next (first second : Construct) : Construct := fun s =>
  match first s with
  | some (true, s) => second s
  | failed => failed

/-- Both queues are made before either is looked at. -/
def new_queues (ok : Outcomes) : Construct := fun s =>
  let s := if ok.alloc .lockqp then { s with lockqp := some [], live := insert .lockqp s.live } else s
  let s := if ok.alloc .idleqp then { s with idleqp := some [], live := insert .idleqp s.live } else s
  some (s.lockqp.isSome && s.idleqp.isSome, s)

/-- The `ringbuf_t` that `malloc` makes room for, of 24 bytes each. -/
def ring_capacity (num_rings : ℕ) : ℕ := (num_rings + 1) * 24 % 2 ^ 64 / 24

def new_ring_array (ok : Outcomes) (num_rings : ℕ) : Construct := fun s =>
  let s := { s with num_rings }
  if ok.alloc .rings then
    some (true, { s with
      rings := some (List.replicate (ring_capacity num_rings) .unset), live := insert .rings s.live })
  else some (false, s)

/-- `_mtx_init_ring` for one of the rings. -/
def new_ring (ok : Outcomes) (i : ℕ) : Construct := fun s => do
  let bufs ← s.rings
  if i < bufs.length then
    if ok.alloc (.ring i) then
      some (true, { s with rings := some (bufs.set i (.set (.ring i))), live := insert (.ring i) s.live })
    else some (false, { s with rings := some (bufs.set i .null) })
  else none

def push_idle (i : ℕ) : Construct := fun s => some (true, { s with idleqp := s.idleqp.map (· ++ [i]) })

/-- The loop over the normal rings, up to one of them. -/
def new_rings (ok : Outcomes) : ℕ → Construct
  | 0 => fun s => some (true, s)
  | i + 1 => (new_rings ok i).next ((new_ring ok i).next (push_idle i))

def new_wrthruring (ok : Outcomes) (num_rings : ℕ) : Construct :=
  (new_ring ok num_rings).next fun s => some (true, { s with wrthruring := some num_rings })

/-- `_init_wrthread_data`. -/
def init_wrthread_data (ok : Outcomes) : Construct := fun s =>
  if ok.alloc .td then
    let s := { s with live := insert Piece.td s.live }
    if ok.alloc .file_path then some (true, { s with live := insert Piece.file_path s.live })
    else do
      let live ← free (.set .td) s.live
      some (false, { s with live })
  else some (false, s)

def start_wrthread (ok : Outcomes) : Construct := fun s =>
  if ok.thread then some (true, { s with wrthread_data := some .td })
  else do
    let live ← free (.set .file_path) s.live
    let live ← free (.set .td) live
    some (false, { s with live })

/-- The part of `_mtx_pmlog_init` that may fail. -/
def construct (ok : Outcomes) (num_rings : ℕ) : Construct :=
  (new_queues ok).next <| (new_ring_array ok num_rings).next <| (new_rings ok num_rings).next <|
    (new_wrthruring ok num_rings).next <| (init_wrthread_data ok).next <| start_wrthread ok

/-- `_mtx_pmlog_init`, for a number of rings. `none` is an access to memory that is not there, or a
signed overflow. -/
def mtx_pmlog_init (ok : Outcomes) (num_rings : ℕ) (s : Setup) : Option (Bool × Setup) :=
  let s := { s with thdp := none, init_count := s.init_count + 1 }
  if s.init_count ≠ 1 then some (true, s)
  else
    match construct ok num_rings s with
    | some (false, s) => (mtx_pmlog_term false s).map fun s => (false, s)
    | r => r

end pwrapi.log
