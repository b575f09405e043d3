import Mathlib.Data.Fintype.Basic
import PowerApi.Common.Lists

open Words Execution

namespace pwrapi.permissions

open PermissionsFile

variable {Pid : Type} [DecidableEq Pid]

/-- The set that the updates reported so far make, and for each process the uids that were in it
at some moment, and at all moments, since the process called a function. -/
structure Ledger (Pid : Type) where
  permitted : Finset UInt32
  ever : Pid → Finset UInt32
  always : Pid → Finset UInt32

/-- The effect of a function that returns 0 after it wrote to the files. -/
def effect (progress : Progress) (retval : Option Int) (permitted : Finset UInt32) : Finset UInt32 :=
  if retval = some 0 then
    match progress with
    | .appending uid _ => insert uid permitted
    | .removed uid => permitted.erase uid
    | _ => permitted
  else permitted

/-- The ledger behind an action of a process that was at `progress`. -/
def Ledger.record (l : Ledger Pid) (a : ProcessAction Pid) (progress : Progress)
    (retval : Option Int) : Ledger Pid :=
  match a with
  | .call pid _ _ => {
      l with
      ever := Function.update l.ever pid l.permitted
      always := Function.update l.always pid l.permitted }
  | .step _ _ =>
    let permitted := effect progress retval l.permitted
    { permitted, ever := fun pid => l.ever pid ∪ permitted, always := fun pid => l.always pid ∩ permitted }
  | .die _ => l

/-- The processes with the ledger. -/
structure Recorded (Pid : Type) where
  processes : Processes Pid
  ledger : Ledger Pid

def perform_recorded (a : ProcessAction Pid) (s : Recorded Pid) :
    Option (Option Int × Recorded Pid) :=
  (perform_action a s.processes).map fun result =>
    (result.1, {
      processes := result.2
      ledger := s.ledger.record a (s.processes.progress a.pid) result.1 })

/-- An action, with what it made a function return. -/
def RecordedStep (s : Recorded Pid) (step : ProcessAction Pid × Option Int) (s' : Recorded Pid) : Prop :=
  perform_recorded step.1 s = some (step.2, s')

def Progress.function : Progress → Option (UidFunction × UInt32)
  | .outside => none
  | .entered function uid | .searching function uid _ => some (function, uid)
  | .not_found uid | .appending uid _ => some (.add_uid, uid)
  | .found uid | .opened uid _ | .copying uid _ _ | .copied uid | .removed uid => some (.del_uid, uid)

/-- What a return value promises: a uid added was in the set at some moment since the call, a uid
deleted was not in it at some moment, and a uid that was in it at all moments is found. -/
def Reported (function : Option (UidFunction × UInt32)) (retval : Option Int)
    (ever always : Finset UInt32) : Prop :=
  match function, retval with
  | some (.check, uid), some found => uid ∈ always → found = 0
  | some (.add_uid, uid), some failed => failed = 0 → uid ∈ ever
  | some (.del_uid, uid), some failed => failed = 0 → uid ∉ always
  | _, _ => True

/-- What an action returns is true of the ledger. -/
def ReportsTrue (s : Recorded Pid) (step : ProcessAction Pid × Option Int) (s' : Recorded Pid) : Prop :=
  Reported (s.processes.progress step.1.pid).function step.2 (s'.ledger.ever step.1.pid)
    (s'.ledger.always step.1.pid)

/-- The current permissions file has the effects of the updates reported, and no others. -/
def InFile (s : Recorded Pid) : Prop := s.processes.files.permitted = s.ledger.permitted

/-- Some deletion is between its `remove` and its `rename`. -/
def Between (s : Processes Pid) : Prop := ∃ pid, (s.progress pid).between

/-- Two deletions do not use the temporary file at once; the file copied or appended to is still
the current one, and no copy was made of it when it is appended to. Besides, no deletion fails
between its `remove` and its `rename`, and only the search of an addition is made then, or fails
to open the file. -/
def StepUndisturbed (s : Processes Pid) (succeeds : Bool) : Progress → Prop
  | .entered function _ => function = .add_uid ∨ succeeds ∧ ¬ Between s
  | .appending _ ino =>
    s.files.dir CURR_PERMISSIONS_FILE = some ino ∧ ∀ q, (s.progress q).copy_made = false
  | .opened _ _ => succeeds → ∀ q, (s.progress q).temp_in_use = false
  | .copying _ fp1 _ => s.files.dir CURR_PERMISSIONS_FILE = some fp1
  | .removed _ => succeeds
  | _ => True

/-- No process disturbs another; nor does a deletion die between its `remove` and its `rename`. -/
def Undisturbed (s : Recorded Pid) (step : ProcessAction Pid × Option Int) (_ : Recorded Pid) : Prop :=
  match step.1 with
  | .call .. => True
  | .step pid succeeds => StepUndisturbed s.processes succeeds (s.processes.progress pid)
  | .die pid => (s.processes.progress pid).between = false

/-- The files before any function is called: the current permissions file is a list of uids that
ends in a newline. -/
structure Initial (s : Recorded Pid) : Prop where
  outside : ∀ pid, s.processes.progress pid = .outside
  linked : s.processes.files.Linked
  current : ∃ ino, s.processes.files.dir CURR_PERMISSIONS_FILE = some ino ∧
    WellFormed (s.processes.files.content ino) ∧ NewlineTerminated (s.processes.files.content ino)
  ledger : InFile s

instance (s : Recorded Pid) : Decidable (InFile s) := inferInstanceAs (Decidable (_ = _))

instance [Fintype Pid] (s : Processes Pid) : Decidable (Between s) := inferInstanceAs (Decidable (∃ _, _))

instance [Fintype Pid] (s : Processes Pid) (succeeds : Bool) :
    (progress : Progress) → Decidable (StepUndisturbed s succeeds progress)
  | .entered .. => inferInstanceAs (Decidable (_ ∨ _))
  | .appending .. => inferInstanceAs (Decidable (_ ∧ _))
  | .opened .. => inferInstanceAs (Decidable (_ → _))
  | .copying .. => inferInstanceAs (Decidable (_ = _))
  | .removed _ => inferInstanceAs (Decidable (_ = _))
  | .outside | .searching .. | .not_found _ | .found _ | .copied _ => .isTrue trivial

instance [Fintype Pid] (s s' : Recorded Pid) (step : ProcessAction Pid × Option Int) :
    Decidable (Undisturbed s step s') :=
  match step with
  | (.call .., _) => .isTrue trivial
  | (.step _ succeeds, _) => inferInstanceAs (Decidable (StepUndisturbed _ succeeds _))
  | (.die _, _) => inferInstanceAs (Decidable (_ = _))

end pwrapi.permissions
