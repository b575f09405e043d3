import Mathlib.Algebra.Group.Nat.Defs
import Mathlib.Data.Finset.Basic
import Mathlib.Data.Finset.Dedup
import PowerApi.Lib.Execution
import PowerApi.Lib.Words

open Words Execution

namespace pwrapi.permissions

/-- The files by their names; `perm.boot`, `perm.curr` and `perm.tmp`. -/
inductive PermissionsFile where
  | BOOT_PERMISSIONS_FILE
  | CURR_PERMISSIONS_FILE
  | TEMP_PERMISSIONS_FILE
  deriving DecidableEq

open PermissionsFile

/-- The characters of the files that exist. -/
abbrev Disk := PermissionsFile → Option (List Char)

/-- Create a file, or replace what it holds. -/
def Disk.write (disk : Disk) (path : PermissionsFile) (content : List Char) : Disk :=
  Function.update disk path (some content)

def isspace (c : Char) : Bool := c = ' ' || (9 ≤ c.toNat && c.toNat ≤ 13)

/-- The conversion of `%u`: too large a number gives `ULONG_MAX`, a minus sign negates. -/
def strtoul (negative : Bool) (digits : List Char) : UInt64 :=
  let number := Nat.ofDigitChars 10 digits 0
  if 2 ^ 64 ≤ number then UInt64.ofNat (2 ^ 64 - 1)
  else if negative then -UInt64.ofNat number else UInt64.ofNat number

/-- The optional sign of a number, and what follows it. -/
def scan_sign : List Char → Bool × List Char
  | '-' :: rest => (true, rest)
  | '+' :: rest => (false, rest)
  | s => (false, s)

/-- `fscanf` with `"%u"`: the number stored and what follows it, or `none` where the
result is not 1. -/
def fscanf_uint (s : List Char) : Option (UInt32 × List Char) :=
  let (negative, s) := scan_sign (s.dropWhile isspace)
  let digits := s.takeWhile Char.isDigit
  if digits.isEmpty then none
  else some ((strtoul negative digits).toUInt32, s.dropWhile Char.isDigit)

/-- `fprintf` with `"%u\n"`. -/
def fprintf_uint (value : UInt32) : List Char := Nat.toDigits 10 value.toNat ++ ['\n']

/-- `fgets` into a line of `n` characters besides its end: the line, and what follows it. -/
def fgets : Nat → List Char → List Char × List Char
  | 0, s => ([], s)
  | _ + 1, [] => ([], [])
  | n + 1, c :: s =>
    if c = '\n' then ([c], s)
    else
      let (line, rest) := fgets n s
      (c :: line, rest)

/-- `fputs` writes a line up to its first NUL. -/
def fputs (line : List Char) : List Char := line.takeWhile fun c => c ≠ Char.ofNat 0

/-- The loop of `file_copy`, for a source of at most `fuel` characters: what it writes. -/
def copy_loop : Nat → List Char → List Char
  | 0, _ => []
  | fuel + 1, s =>
    let (line, rest) := fgets 31 s
    if line.isEmpty then []
    else fputs line ++ copy_loop fuel rest

def file_copy (frompath topath : PermissionsFile) (disk : Disk) : Int × Disk :=
  match disk frompath with
  | none => (1, disk)
  | some content => (0, disk.write topath (copy_loop content.length content))

/-- The loop of `file_search_uint`, for a file of at most `fuel` characters. -/
def search_loop (key : UInt32) : Nat → List Char → Int
  | 0, _ => 1
  | fuel + 1, s =>
    match fscanf_uint s with
    | none => 1
    | some (current, rest) => if key = current then 0 else search_loop key fuel rest

def file_search_uint (filepath : PermissionsFile) (key : UInt32) (disk : Disk) : Int :=
  match disk filepath with
  | none => 2
  | some content => search_loop key content.length content

/-- Truncate the current permissions file. -/
def clear_permissions_file (disk : Disk) : Int × Disk := (0, disk.write CURR_PERMISSIONS_FILE [])

/-- Copy the boot-time permissions file to the current permissions file. -/
def restore_permissions_file (disk : Disk) : Int × Disk :=
  file_copy BOOT_PERMISSIONS_FILE CURR_PERMISSIONS_FILE disk

/-- Search through the current permissions file for `uid`. -/
def check_permissions_file (uid : UInt32) (disk : Disk) : Int :=
  file_search_uint CURR_PERMISSIONS_FILE uid disk

/-- Add `uid` to the current permissions file if it's not already there. -/
def add_uid_permissions_file (uid : UInt32) (disk : Disk) : Int × Disk :=
  if file_search_uint CURR_PERMISSIONS_FILE uid disk = 0 then (0, disk)
  else
    let content := (disk CURR_PERMISSIONS_FILE).getD []
    (0, disk.write CURR_PERMISSIONS_FILE (content ++ fprintf_uint uid))

/-- The loop of `del_uid_permissions_file`, for a file of at most `fuel` characters: what
it writes to the temporary file. -/
def delete_loop (uid : UInt32) : Nat → List Char → List Char
  | 0, _ => []
  | fuel + 1, s =>
    match fscanf_uint s with
    | none => []
    | some (current, rest) =>
      if uid = current then delete_loop uid fuel rest
      else fprintf_uint current ++ delete_loop uid fuel rest

/-- Delete `uid` from the current permissions file if it's there. -/
def del_uid_permissions_file (uid : UInt32) (disk : Disk) : Int × Disk :=
  if file_search_uint CURR_PERMISSIONS_FILE uid disk ≠ 0 then (0, disk)
  else
    match disk CURR_PERMISSIONS_FILE with
    | none => (1, disk)
    | some content =>
      let disk := disk.write TEMP_PERMISSIONS_FILE (delete_loop uid content.length content)
      -- remove and rename
      let disk := Function.update disk CURR_PERMISSIONS_FILE (disk TEMP_PERMISSIONS_FILE)
      (0, Function.update disk TEMP_PERMISSIONS_FILE none)

/-- A call of one of the functions. -/
inductive PermissionsCall where
  | clear
  | restore
  | check (uid : UInt32)
  | add_uid (uid : UInt32)
  | del_uid (uid : UInt32)

/-- What a call returns, and the files behind it. -/
def perform : PermissionsCall → Disk → Int × Disk
  | .clear, disk => clear_permissions_file disk
  | .restore, disk => restore_permissions_file disk
  | .check uid, disk => (check_permissions_file uid disk, disk)
  | .add_uid uid, disk => add_uid_permissions_file uid disk
  | .del_uid uid, disk => del_uid_permissions_file uid disk

/-- A call, with what it returned. -/
def PermissionsStep (disk : Disk) (action : PermissionsCall × Int) (disk' : Disk) : Prop :=
  perform action.1 disk = (action.2, disk')

/-- The run that makes the given calls. -/
def permissions_run : List PermissionsCall → Disk → List ((PermissionsCall × Int) × Disk)
  | [], _ => []
  | call :: rest, disk =>
    let (retval, disk') := perform call disk
    ((call, retval), disk') :: permissions_run rest disk'

theorem permissions_run_steps (calls : List PermissionsCall) (disk : Disk) :
    EachStep PermissionsStep disk (permissions_run calls disk) := by
  induction calls generalizing disk with
  | nil => trivial
  | cons call rest ih => exact ⟨rfl, ih _⟩

end pwrapi.permissions
