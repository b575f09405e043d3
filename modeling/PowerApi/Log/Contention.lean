import Mathlib.Logic.Function.Basic
import PowerApi.Lib.Execution
import PowerApi.Lib.HashTable
import PowerApi.Log.Rotation

open Execution HashTable

namespace pwrapi.log

/-- Where `_thr_rotate_logs` opens the log file again: where the file that is open turned out to
be stale, without the lock or with it, and at its end. -/
inductive Reopen where
  | unlocked | locked | rotated
  deriving DecidableEq, Repr

/-- The operation that a write thread is about to do: none of `_thr_rotate_logs`, or there the
call named, where `announce` is the message before a rotation. -/
inductive Pc where
  | idle
  | lseek
  | stat
  | lock (force : Bool)
  | stat_locked
  | announce (force : Bool)
  | unlink (force : Bool)
  | rename (force : Bool) (src : ℕ) (dst : ℤ)
  | close (site : Reopen)
  | creat (site : Reopen)
  | done
  deriving DecidableEq, Repr

/-- The write thread of a process, with the inode of the log file that it has open. -/
structure Writer where
  logino : Option ℕ := none
  written : UInt64 := 0
  pc : Pc := .idle
  deriving DecidableEq, Repr

/-- The log files by number, where 0 is the log file itself, the sizes of the inodes, the process
that has the lock on the control file, and the write threads of all processes. -/
structure SharedLog (π : Type) where
  dir : HashTable ℤ ℕ
  size : ℕ → ℕ
  ctl : Option π := none
  writers : π → Writer

/-- A number of files as an `int`. -/
def as_int (n : ℕ) : ℤ := (n : ℤ).bmod (2 ^ 32)

namespace SharedLog

variable {π : Type} [DecidableEq π]

def set (s : SharedLog π) (pid : π) (w : Writer) : SharedLog π :=
  { s with writers := Function.update s.writers pid w }

/-- The log file is there, and is not the file that the writer has open. -/
def stale (s : SharedLog π) (w : Writer) : Bool :=
  match s.dir.lookup 0 with
  | some ino => decide (w.logino ≠ some ino)
  | none => false

def rename_file (dir : HashTable ℤ ℕ) (src dst : ℤ) : HashTable ℤ ℕ :=
  match dir.lookup src with
  | some ino => (dir.erase src).insert dst ino
  | none => dir

/-- The head of the loop that renames. -/
def rename_from (force : Bool) (i dst : ℤ) : Pc := if 0 ≤ i then .rename force i.toNat dst else .close .rotated

/-- The sizes after a writer has appended to the log file that it has open, if any. -/
def appended (s : SharedLog π) (w : Writer) (bytes : ℕ) : ℕ → ℕ :=
  match w.logino with
  | some ino => Function.update s.size ino (s.size ino + bytes)
  | none => s.size

/-- `_thr_write_message`, where the text has some bytes and the message block its length. -/
def thr_write_message (bytes : ℕ) (msglen : UInt64) (pid : π) (s : SharedLog π) : Option (SharedLog π) :=
  let w := s.writers pid
  let s := { s with size := s.appended w bytes }
  match w.pc with
  | .idle => some (s.set pid { w with written := w.written + msglen })
  | .announce force => some (s.set pid { w with written := w.written + msglen, pc := .unlink force })
  | _ => none

/-- `_thr_rotate_logs` up to its first operation on files. -/
def thr_rotate_logs (params : RotationParams) (force : Bool) (pid : π) (s : SharedLog π) : Option (SharedLog π) :=
  let w := s.writers pid
  if w.pc ≠ .idle then none
  else if params.max_files ≤ 1 then some s
  else if force then some (s.set pid { w with pc := .lock true })
  else if params.max_size = 0 then some s
  else if w.written < 1024 then some s
  else some (s.set pid { w with written := 0, pc := .lseek })

/-- The next operation of `_thr_rotate_logs`, with the inode that a new file gets. A process waits
for the lock while another has it. -/
def advance (params : RotationParams) (ino : ℕ) (pid : π) (s : SharedLog π) : Option (SharedLog π) :=
  let w := s.writers pid
  match w.pc with
  | .idle | .announce _ => none
  | .lseek =>
    match w.logino with
    | some open_ino => some (s.set pid { w with pc := if s.size open_ino < params.max_size then .idle else .stat })
    | none => none
  | .stat => some (s.set pid { w with pc := if s.stale w then .close .unlocked else .lock false })
  | .lock force =>
    if s.ctl.isSome then none
    else some ({ s with ctl := some pid }.set pid { w with pc := if force then .announce true else .stat_locked })
  | .stat_locked => some (s.set pid { w with pc := if s.stale w then .close .locked else .announce false })
  | .unlink force =>
    let last := as_int (params.max_files - 1)
    some ({ s with dir := s.dir.erase last }.set pid
      { w with pc := rename_from force (as_int (params.max_files - 2)) last })
  | .rename force src dst =>
    some ({ s with dir := rename_file s.dir src dst }.set pid { w with pc := rename_from force (src - 1) src })
  | .close site => some (s.set pid { w with logino := none, pc := .creat site })
  | .creat _ =>
    match s.dir.lookup 0 with
    | some base => some (s.set pid { w with logino := some base, pc := .done })
    | none =>
      some ({ s with dir := s.dir.insert 0 ino, size := Function.update s.size ino 0 }.set pid
        { w with logino := some ino, pc := .done })
  | .done => some ({ s with ctl := if s.ctl = some pid then none else s.ctl }.set pid { w with pc := .idle })

end SharedLog

/-- What a process does next: its write thread writes a message, calls `_thr_rotate_logs`, or
goes on in that call. -/
inductive LogAction where
  | write (bytes : ℕ) (msglen : UInt64)
  | rotate (force : Bool)
  | advance (ino : ℕ)
  deriving DecidableEq, Repr

namespace SharedLog

variable {π : Type} [DecidableEq π]

def perform (params : RotationParams) : π × LogAction → SharedLog π → Option (SharedLog π)
  | (pid, .write bytes msglen), s => s.thr_write_message bytes msglen pid
  | (pid, .rotate force), s => s.thr_rotate_logs params force pid
  | (pid, .advance ino), s => s.advance params ino pid

omit [DecidableEq π] in
/-- No file has the inode, neither under a name nor open. It may have been a file's before. -/
def Unused (s : SharedLog π) (ino : ℕ) : Prop := ino ∉ values s.dir ∧ ∀ pid, (s.writers pid).logino ≠ some ino

/-- The log file is created where there is none, with an unused inode. -/
def Creates (s : SharedLog π) : π × LogAction → Prop
  | (pid, .advance ino) => (s.writers pid).pc ∈ [.creat .unlocked, .creat .locked, .creat .rotated] →
      s.dir.lookup 0 = none → s.Unused ino
  | _ => True

def LogStep (params : RotationParams) (s : SharedLog π) (step : π × LogAction) (s' : SharedLog π) : Prop :=
  s.Creates step ∧ perform params step s = some s'

end SharedLog

end pwrapi.log
