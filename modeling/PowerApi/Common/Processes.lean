import Mathlib.Logic.Function.Basic
import PowerApi.Common.UidSet

open Execution

namespace pwrapi.permissions

open PermissionsFile

/-- The files by their names and inodes. All inodes so far are below `next`. -/
structure Inodes where
  dir : PermissionsFile → Option ℕ
  content : ℕ → List Char
  next : ℕ

namespace Inodes

/-- Every name is that of a file of its own. -/
structure Linked (files : Inodes) : Prop where
  old : ∀ path ino, files.dir path = some ino → ino < files.next
  distinct : ∀ path path' ino, files.dir path = some ino → files.dir path' = some ino → path = path'

/-- `fopen` with `"a"`. The file is created if there is none. -/
def fopen_append (path : PermissionsFile) (files : Inodes) : ℕ × Inodes :=
  match files.dir path with
  | some ino => (ino, files)
  | none => (files.next, {
      dir := Function.update files.dir path (some files.next)
      content := Function.update files.content files.next []
      next := files.next + 1 })

/-- `fopen` with `"w"`, which truncates the file. -/
def fopen_write (path : PermissionsFile) (files : Inodes) : ℕ × Inodes :=
  let (ino, files) := files.fopen_append path
  (ino, { files with content := Function.update files.content ino [] })

/-- What is written to a file opened with `"a"`. -/
def append (ino : ℕ) (s : List Char) (files : Inodes) : Inodes :=
  { files with content := Function.update files.content ino (files.content ino ++ s) }

/-- What is written to a file opened with `"w"`: it replaces what the file holds there. -/
def write (ino : ℕ) (s : List Char) (files : Inodes) : Inodes :=
  { files with content := Function.update files.content ino (s ++ (files.content ino).drop s.length) }

def remove (path : PermissionsFile) (files : Inodes) : Inodes :=
  { files with dir := Function.update files.dir path none }

def rename (oldpath newpath : PermissionsFile) (files : Inodes) : Inodes :=
  { files with
    dir := Function.update (Function.update files.dir newpath (files.dir oldpath)) oldpath none }

section Operations

variable (path path' : PermissionsFile) (ino : ℕ) (s : List Char) (files : Inodes)

theorem append_content : (files.append ino s).content =
    Function.update files.content ino (files.content ino ++ s) := rfl

theorem write_dir : (files.write ino s).dir = files.dir := rfl

theorem write_content : (files.write ino s).content =
    Function.update files.content ino (s ++ (files.content ino).drop s.length) := rfl

theorem remove_dir : (files.remove path).dir = Function.update files.dir path none := rfl

theorem rename_dir : (files.rename path path').dir =
    Function.update (Function.update files.dir path' (files.dir path)) path none := rfl

end Operations

/-- The files as the functions see them that run alone. -/
def disk (files : Inodes) : Disk := fun path => (files.dir path).map files.content

/-- The uids permitted. -/
def permitted (files : Inodes) : Finset UInt32 := files.disk.permitted

end Inodes

/-- The functions that administrators and the daemon call at the same time. -/
inductive UidFunction where
  | check
  | add_uid
  | del_uid
  deriving DecidableEq

/-- How far a process is in a function, with the files that it has open. -/
inductive Progress where
  | outside
  | entered (function : UidFunction) (uid : UInt32)
  | searching (function : UidFunction) (uid : UInt32) (ino : ℕ)
  | not_found (uid : UInt32)
  | appending (uid : UInt32) (ino : ℕ)
  | found (uid : UInt32)
  | opened (uid : UInt32) (fp1 : ℕ)
  | copying (uid : UInt32) (fp1 fp2 : ℕ)
  | copied (uid : UInt32)
  | removed (uid : UInt32)
  deriving DecidableEq

/-- A deletion has opened the temporary file. -/
def Progress.temp_in_use : Progress → Bool
  | .copying .. | .copied _ | .removed _ => true
  | _ => false

/-- A deletion has copied the file, and not yet replaced it by the copy. -/
def Progress.copy_made : Progress → Bool
  | .copied _ | .removed _ => true
  | _ => false

/-- A deletion is between its `remove` and its `rename`. -/
def Progress.between : Progress → Bool
  | .removed _ => true
  | _ => false

/-- How the functions go on from the result of their search: what they return, if they do. -/
def after_search (function : UidFunction) (uid : UInt32) (found : Int) : Option Int × Progress :=
  match function with
  | .check => (some found, .outside)
  | .add_uid => if found = 0 then (some 0, .outside) else (none, .not_found uid)
  | .del_uid => if found ≠ 0 then (some 0, .outside) else (none, .found uid)

/-- The next operation on the files. Where `succeeds` is false, a file cannot be opened, removed
or renamed. -/
def advance (succeeds : Bool) (files : Inodes) : Progress → (Option Int × Progress) × Inodes
  | .outside => ((none, .outside), files)
  | .entered function uid =>
    match files.dir CURR_PERMISSIONS_FILE with
    | some ino =>
      if succeeds then ((none, .searching function uid ino), files)
      else (after_search function uid 2, files)
    | none => (after_search function uid 2, files)
  | .searching function uid ino =>
    (after_search function uid (search_loop uid (files.content ino).length (files.content ino)), files)
  | .not_found uid =>
    if succeeds then
      let (ino, files) := files.fopen_append CURR_PERMISSIONS_FILE
      ((none, .appending uid ino), files)
    else ((some 1, .outside), files)
  | .appending uid ino => ((some 0, .outside), files.append ino (fprintf_uint uid))
  | .found uid =>
    match files.dir CURR_PERMISSIONS_FILE with
    | some ino => if succeeds then ((none, .opened uid ino), files) else ((some 1, .outside), files)
    | none => ((some 1, .outside), files)
  | .opened uid fp1 =>
    if succeeds then
      let (fp2, files) := files.fopen_write TEMP_PERMISSIONS_FILE
      ((none, .copying uid fp1 fp2), files)
    else ((some 1, .outside), files)
  | .copying uid fp1 fp2 =>
    ((none, .copied uid),
      files.write fp2 (delete_loop uid (files.content fp1).length (files.content fp1)))
  | .copied uid =>
    if succeeds ∧ files.dir CURR_PERMISSIONS_FILE ≠ none then
      ((none, .removed uid), files.remove CURR_PERMISSIONS_FILE)
    else ((some 1, .outside), files)
  | .removed _ =>
    if succeeds ∧ files.dir TEMP_PERMISSIONS_FILE ≠ none then
      ((some 0, .outside), files.rename TEMP_PERMISSIONS_FILE CURR_PERMISSIONS_FILE)
    else ((some 1, .outside), files)

/-- The processes at work on the files. -/
structure Processes (Pid : Type) where
  files : Inodes
  progress : Pid → Progress

/-- A process calls a function, takes its next step in it, or dies. -/
inductive ProcessAction (Pid : Type) where
  | call (pid : Pid) (function : UidFunction) (uid : UInt32)
  | step (pid : Pid) (succeeds : Bool)
  | die (pid : Pid)
  deriving DecidableEq

def ProcessAction.pid {Pid : Type} : ProcessAction Pid → Pid
  | .call pid _ _ | .step pid _ | .die pid => pid

/-- An action with what it makes a function return; `none` is an action that cannot be taken. -/
def perform_action {Pid : Type} [DecidableEq Pid] (a : ProcessAction Pid) (s : Processes Pid) :
    Option (Option Int × Processes Pid) :=
  match a with
  | .call pid function uid =>
    if s.progress pid = .outside then
      some (none, { s with progress := Function.update s.progress pid (.entered function uid) })
    else none
  | .step pid succeeds =>
    if s.progress pid = .outside then none
    else
      let ((retval, progress), files) := advance succeeds s.files (s.progress pid)
      some (retval, { files, progress := Function.update s.progress pid progress })
  | .die pid => some (none, { s with progress := Function.update s.progress pid .outside })

end pwrapi.permissions
