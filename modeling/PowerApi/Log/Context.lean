import PowerApi.Log.Buffers

namespace pwrapi.log

/-- The types of messages. -/
inductive LogType where
  | CONSOLE | INTERNAL | MESSAGE | CRITICAL | WARNING | FAULT
  | TRACE1 | TRACE2 | TRACE3 | DEBUG1 | DEBUG2
  | OTHER (raw : Int)
  deriving DecidableEq, Repr

/-- The data of a write thread, with the place where the thread is. `logfd` tells whether its
log file is open. -/
structure ThreadData where
  terminate : Bool := false
  sync : Bool := false
  rotate : Bool := false
  autoflush_enable : Bool := false
  logfd : Bool := false
  pc : WrPc := .starting
  deriving DecidableEq, Repr

/-- What a call of `_mtx_sync` goes on to once the write thread has become idle. -/
inductive AfterSync where
  | done
  | init
  | message (type : LogType) (msglen : ℕ)
  | term
  deriving DecidableEq, Repr

/-- Where a user thread is: in no call, or in one that waits for a condition. -/
inductive UserPc where
  | ready
  | wrthru_wait (msglen : ℕ)
  | active_wait (work : Work)
  | rotate_wait
  | sync_wait (next : AfterSync)
  deriving DecidableEq, Repr

/-- What the environment sets: the numbers that an initialization gets, and whether
`_log_enable` is `LOG_ENABLE_FULL`. -/
structure Config where
  num_rings : ℕ
  ring_size : ℕ
  log_enable_full : Bool := false
  deriving DecidableEq, Repr

/-- A context with the threads that use it. `td` has the data of all write threads there ever
were, and `wrthread_data` points into it. -/
structure Context where
  buf : Buffers := {}
  wrthread_data : Option ℕ := none
  init_count : ℕ := 0
  td : List ThreadData := []
  user : ℕ → UserPc := fun _ => .ready

/-- The length of a message from that of its text: the header, the text as far as it fits and a
final NUL, up to a multiple of eight. -/
def msglen_of (len : ℕ) : ℕ :=
  let txtlen := min len (4096 - 128 - 1)
  (1 + txtlen + 32 + 7) / 8 * 8

namespace Context

def set_user (s : Context) (t : ℕ) (pc : UserPc) : Context :=
  { s with user := Function.update s.user t pc }

def set_td (s : Context) (k : ℕ) (td : ThreadData) : Context :=
  { s with td := s.td.set k td }

/-- `_mtx_pmlog_init`, where nothing fails. -/
def mtx_pmlog_init (cfg : Config) (s : Context) : Context :=
  if s.init_count ≠ 0 then { s with init_count := s.init_count + 1 }
  else
    let ring_size := (max cfg.ring_size 4096 + 7) / 8 * 8
    { s with
      init_count := s.init_count + 1
      buf := s.buf.alloc cfg.num_rings ring_size
      td := s.td ++ [{}]
      wrthread_data := some s.td.length }

/-- `_mtx_pmlog_term`, where it is not forced. -/
def mtx_pmlog_term (s : Context) : Option Context :=
  if s.init_count ≠ 0 ∧ s.init_count - 1 ≠ 0 then some { s with init_count := s.init_count - 1 }
  else do
    let s := { s with init_count := 0 }
    let s ← match s.wrthread_data with
      | some k => do
        let td ← s.td[k]?
        some { s.set_td k { td with terminate := true } with wrthread_data := none }
      | none => some s
    some { s with buf := s.buf.free }

/-- Thread `t` uses the write-through ring, or waits to. -/
def in_wrthruring (t msglen : ℕ) (s : Context) : Option Context := do
  match ← use_wrthruring s.buf msglen with
  | none => some (s.set_user t (.wrthru_wait msglen))
  | some buf => some ({ s with buf }.set_user t .ready)

/-- Thread `t` uses the active ring, or waits to. -/
def in_activering (t : ℕ) (work : Work) (s : Context) : Option Context := do
  match ← use_activering s.buf work with
  | none => some (s.set_user t (.active_wait work))
  | some buf => some ({ s with buf }.set_user t .ready)

/-- `_mtx_getactivering` from its start, and what its caller does with the ring. Without normal
rings there is nothing to do. -/
def with_activering (t : ℕ) (work : Work) (s : Context) : Option Context :=
  if s.buf.num_rings = 0 then some (s.set_user t .ready) else in_activering t work s

/-- `pmlog_message` once the log is up. -/
def route (t : ℕ) (type : LogType) (msglen : ℕ) (td : ThreadData) (s : Context) :
    Option Context :=
  if td.autoflush_enable then in_wrthruring t msglen s
  else match type with
  | .CONSOLE => some (s.set_user t .ready)
  | .INTERNAL | .MESSAGE => in_wrthruring t msglen s
  | .CRITICAL | .WARNING | .FAULT => with_activering t (.put msglen true) s
  | _ => with_activering t (.put msglen false) s

/-- What follows `_mtx_sync`. -/
def after_sync (t : ℕ) (next : AfterSync) (s : Context) : Option Context :=
  match next with
  | .done => some (s.set_user t .ready)
  | .term => do
    let s ← s.mtx_pmlog_term
    some (s.set_user t .ready)
  | .init | .message _ _ => do
    let opened ← match s.wrthread_data with
      | none => some none
      | some k => do
        let td ← s.td[k]?
        some (if td.logfd then some td else none)
    match opened, next with
    | some td, .message type msglen => route t type msglen td s
    | some _, _ => some (s.set_user t .ready)
    | none, _ => do
      let s ← s.mtx_pmlog_term
      some (s.set_user t .ready)

/-- `_mtx_sync` and what follows it. -/
def mtx_sync (t : ℕ) (next : AfterSync) (s : Context) : Option Context :=
  match s.wrthread_data with
  | some k => do
    let td ← s.td[k]?
    some ((s.set_td k { td with sync := true }).set_user t (.sync_wait next))
  | none => after_sync t next s

end Context

/-- A call on a context, up to where it returns or waits for a condition. -/
inductive Call where
  | init
  | message (type : LogType) (len : ℕ)
  | flush
  | rotate
  | sync
  | term
  deriving DecidableEq, Repr

open Context

section Sections

variable (cfg : Config)

def pmlog_message (t : ℕ) (type : LogType) (len : ℕ) (s : Context) : Option Context :=
  if cfg.log_enable_full = false ∧ (type = .TRACE3 ∨ type = .TRACE2 ∨ type = .DEBUG2) then some s
  else if type = .CONSOLE then some s
  else match s.wrthread_data with
  | none => mtx_sync t (.message type (msglen_of len)) (mtx_pmlog_init cfg s)
  | some k => do
    let td ← s.td[k]?
    route t type (msglen_of len) td s

def pmlog_rotate (t : ℕ) (s : Context) : Option Context :=
  match s.wrthread_data with
  | none => some s
  | some k => do
    let td ← s.td[k]?
    some ((s.set_td k { td with rotate := true }).set_user t .rotate_wait)

/-- A thread locks the mutex for a call. -/
def call (t : ℕ) (s : Context) : Call → Option Context
  | .init => mtx_sync t .init (mtx_pmlog_init cfg s)
  | .message type len => pmlog_message cfg t type len s
  | .flush => if s.wrthread_data = none then some s else with_activering t .flush s
  | .rotate => pmlog_rotate t s
  | .sync => mtx_sync t .done s
  | .term => mtx_sync t .term s

end Sections

/-- A waiting thread wakes up with the mutex. -/
def wake (t : ℕ) (s : Context) : Option Context :=
  match s.user t with
  | .ready => some s
  | .wrthru_wait msglen => in_wrthruring t msglen s
  | .active_wait work => in_activering t work s
  | .rotate_wait => do
    let k ← s.wrthread_data
    let td ← s.td[k]?
    if td.rotate then some s else some (s.set_user t .ready)
  | .sync_wait next =>
    match s.wrthread_data with
    | none => after_sync t next s
    | some k => do
      let td ← s.td[k]?
      if td.sync then some s else after_sync t next s

/-- The part of the write thread's loop that it left to wait or to unlock the mutex. -/
def left_off (td : ThreadData) (b : Buffers) : Option (Turn × Buffers) :=
  match td.pc with
  | .waiting => pass td.terminate td.rotate b
  | .rotating => deliver td.terminate true b
  | .written r => resume_ring td.terminate r b
  | .written_wrthru => wrthru_messages td.terminate true b
  | _ => some (.go true, b)

/-- The write thread with the mutex, from where it locked it or woke up to where it unlocks it
or waits. -/
def write_thread (td : ThreadData) (b : Buffers) : Option (ThreadData × Buffers) := do
  let turn ← left_off td b
  let rotate := if td.pc = .rotating then false else td.rotate
  let (pc, b) ← go_on td.terminate rotate turn
  let sync := if pc = .waiting ∨ pc = .exited then false else td.sync
  some ({ td with pc, rotate, sync }, b)

/-- Write thread `k` runs with the mutex. -/
def run_thread (k : ℕ) (td : ThreadData) (s : Context) : Option Context := do
  let (td, buf) ← write_thread td s.buf
  some { s.set_td k td with buf }

/-- What happens next to a context: a thread makes a call, a waiting thread wakes up, signalled
or not, a write thread has opened its files, successfully or not, and locks the mutex, it locks
the mutex again or wakes up, or it writes a message without the mutex. -/
inductive Action where
  | call (t : ℕ) (c : Call)
  | wake (t : ℕ)
  | start (k : ℕ) (opened : Bool)
  | lock (k : ℕ)
  | write (k : ℕ)
  deriving DecidableEq, Repr

/-- A state of the context, or none after an access to freed memory or a null pointer. -/
abbrev Outcome := Option Context

/-- `none` is an action that cannot be taken. -/
def perform (cfg : Config) (a : Action) (s : Context) : Option Outcome :=
  match a with
  | .call t c => if s.user t = .ready then some (call cfg t s c) else none
  | .wake t => if s.user t = .ready then none else some (wake t s)
  | .start k opened => do
    let td ← s.td[k]?
    if td.pc = .starting then some (run_thread k { td with logfd := opened } s) else none
  | .lock k => do
    let td ← s.td[k]?
    match td.pc with
    | .waiting | .rotating | .written _ | .written_wrthru => some (run_thread k td s)
    | _ => none
  | .write k => do
    let td ← s.td[k]?
    match td.pc with
    | .writing r m =>
      let buf := s.buf.write_message td.logfd ⟨r, m⟩
      some (some { s.set_td k { td with pc := .written r } with buf })
    | .writing_wrthru r m =>
      let buf := s.buf.write_message td.logfd ⟨r, m⟩
      some (some { s.set_td k { td with pc := .written_wrthru } with buf })
    | _ => none

/-- Nothing happens after a bad access. -/
def Steps (cfg : Config) (o : Outcome) (a : Action) (o' : Outcome) : Prop :=
  o.bind (perform cfg a) = some o'

/-- A context that was initialized a number of times. -/
def initialized (cfg : Config) (count : ℕ) : Context :=
  { mtx_pmlog_init cfg {} with init_count := count }

end pwrapi.log
