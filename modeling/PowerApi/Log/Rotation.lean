import Mathlib.Logic.Function.Basic
import PowerApi.Lib.Execution

open Execution

namespace pwrapi.log

/-- The parameters that the users of a log share. -/
structure RotationParams where
  max_size : ℕ
  max_files : ℕ
  deriving DecidableEq, Repr

/-- A process with the log open. -/
structure LogUser where
  params : RotationParams
  logino : ℕ
  deriving DecidableEq, Repr

/-- The log files by number, where 0 is the log file itself, the control file, the shared locks,
each an inode with the process that holds it, and the processes that have the log open. All
inodes so far are below `next`. -/
structure LogFiles where
  dir : ℕ → Option ℕ
  next : ℕ
  ctl : Option RotationParams
  locks : List (ℕ × ℕ)
  users : ℕ → Option LogUser

namespace LogFiles

def rename (dir : ℕ → Option ℕ) (src dst : ℕ) : ℕ → Option ℕ :=
  match dir src with
  | some ino => Function.update (Function.update dir dst (some ino)) src none
  | none => dir

/-- The loop that moves file `n - 1` to file `n`, and so on down to the log file. -/
def shift : ℕ → (ℕ → Option ℕ) → ℕ → Option ℕ
  | 0, dir => dir
  | i + 1, dir => shift i (rename dir i (i + 1))

/-- The loop of `_thr_purge_logs` from file `i` on. There are no more files than inodes. -/
def purge : ℕ → ℕ → (ℕ → Option ℕ) → ℕ → Option ℕ
  | 0, _, dir => dir
  | fuel + 1, i, dir =>
    match dir i with
    | none => dir
    | some _ => purge fuel (i + 1) (Function.update dir i none)

/-- `_thr_close_log_file`. A process that closes a file gives up its lock on it. -/
def thr_close_log_file (pid logino : ℕ) (fs : LogFiles) : LogFiles :=
  { fs with locks := fs.locks.filter (· ≠ (logino, pid)) }

/-- The log file's inode. The file is created if there is none. -/
def open_file (fs : LogFiles) : ℕ × LogFiles :=
  match fs.dir 0 with
  | some ino => (ino, fs)
  | none => (fs.next, { fs with dir := Function.update fs.dir 0 (some fs.next), next := fs.next + 1 })

/-- The attempt to lock the log file exclusively fails if another process has a lock. -/
def can_lock (fs : LogFiles) (pid ino : ℕ) : Bool :=
  fs.locks.all fun lock => lock.1 ≠ ino || lock.2 = pid

/-- `_thr_open_log_file` in a rotation: no lock, and the same parameters. -/
def reopen_log_file (pid : ℕ) (user : LogUser) (fs : LogFiles) : LogFiles :=
  let (ino, fs) := (fs.thr_close_log_file pid user.logino).open_file
  { fs with users := Function.update fs.users pid (some { user with logino := ino }) }

/-- `_thr_open_log_file` of a process that starts, with its own parameters. -/
def open_log_file (pid : ℕ) (own : RotationParams) (fs : LogFiles) : Bool × LogFiles :=
  let (ino, fs) := fs.open_file
  let master := fs.can_lock pid ino
  let ctl := if master then some own else fs.ctl
  let params := ctl.getD own
  (master, { fs with
    ctl
    locks := (ino, pid) :: fs.locks
    users := Function.update fs.users pid (some { params, logino := ino }) })

/-- What the write thread does before it first locks the mutex. -/
def start (pid : ℕ) (own : RotationParams) (fs : LogFiles) : LogFiles :=
  let (master, fs) := fs.open_log_file pid own
  match master, fs.users pid with
  | true, some user =>
    if user.params.max_files ≤ 1 then fs
    else { fs with dir := purge fs.next user.params.max_files fs.dir }
  | _, _ => fs

/-- The rotation itself. -/
def rotate_files (pid : ℕ) (user : LogUser) (fs : LogFiles) : LogFiles :=
  let last := user.params.max_files - 1
  { fs with dir := shift last (Function.update fs.dir last none) }.reopen_log_file pid user

/-- `_thr_rotate_logs`. Unless the rotation is forced, `due` tells whether enough was written
since the last check and the file that is open is large enough. -/
def thr_rotate_logs (pid : ℕ) (user : LogUser) (force due : Bool) (fs : LogFiles) : LogFiles :=
  if user.params.max_files ≤ 1 then fs
  else if force then fs.rotate_files pid user
  else if user.params.max_size = 0 then fs
  else if !due then fs
  else match fs.dir 0 with
  | some ino =>
    if user.logino ≠ ino then fs.reopen_log_file pid user else fs.rotate_files pid user
  | none => fs.rotate_files pid user

/-- A process ends its logging, or ends. -/
def exit (pid : ℕ) (user : LogUser) (fs : LogFiles) : LogFiles :=
  let fs := fs.thr_close_log_file pid user.logino
  { fs with users := Function.update fs.users pid none }

end LogFiles

/-- What a process does with the log files. Each holds the lock on the control file, or is a
single operation on files. -/
inductive FileAction where
  | start (pid : ℕ) (own : RotationParams)
  | rotate (pid : ℕ) (force due : Bool)
  | exit (pid : ℕ)
  deriving DecidableEq, Repr

/-- `none` is an action that cannot be taken. -/
def perform_on_files (a : FileAction) (fs : LogFiles) : Option LogFiles :=
  match a with
  | .start pid own => if fs.users pid = none then some (fs.start pid own) else none
  | .rotate pid force due => (fs.users pid).map fun user => fs.thr_rotate_logs pid user force due
  | .exit pid => (fs.users pid).map fun user => fs.exit pid user

end pwrapi.log
