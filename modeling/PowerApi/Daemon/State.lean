import PowerApi.Lib.HashTable
import PowerApi.Daemon.ControlFile

namespace pwrapi.daemon

/-- `set_info_t`, with the address that tells one allocated record from another.
A record's other fields are only written while no table holds it, so the tables
hold copies. -/
structure SetInfo where
  addr : Nat
  setreq : SetReq
  /-- Address of the requesting socket's record; `none` for a default value. -/
  skinfo : Option Nat
  timestamp : UInt64 := 0
  deriving DecidableEq, Repr

/-- `struct ucred`, reduced to the user id that decisions are made on. -/
structure Ucred where
  uid : UInt32
  deriving DecidableEq, Repr

/-- `socket_info_t`. -/
structure SocketInfo where
  sockid : Int
  cred : Ucred
  role : PwrRole := .NOT_SPECIFIED
  context_name : Option String := none
  my_changes : HashTable String SetInfo := ∅
  seqnum : UInt64 := 0

/-- A response written to a socket, with the socket record it was sent for. -/
structure Written where
  record : Nat
  fd : Int
  resp : Response
  deriving DecidableEq, Repr

/-- The daemon's tables, its heap of socket records, and the part of the system
around it that it acts on. `sockets` holds the socket records that are allocated,
by address; `io_failed` records whether any access to a control file has failed. -/
structure Daemon where
  open_sockets : HashTable Int Nat := ∅
  sockets : HashTable Nat SocketInfo := ∅
  def_values : HashTable String SetInfo := ∅
  all_changes : HashTable String (List SetInfo) := ∅
  work_queue : List SetInfo := []
  next_addr : Nat := 0
  files : String → ControlFile
  clock : UInt64 := 0
  io_failed : Bool := false
  sent : List Written := []

/-- The faults of one operation: whether reading a path fails, and whether
writing it does, with what the failed write leaves in the file. -/
structure Io where
  read_fault : String → Bool := fun _ => false
  write_fault : String → Option ControlFile := fun _ => none

namespace Daemon

/-- The list of changes of a path; an absent key and an empty list are the same to `g_slist`. -/
def slist (s : Daemon) (path : String) : List SetInfo := (s.all_changes.lookup path).getD []

/-- The change of a path in the `my_changes` table of a socket record. -/
def my_change (s : Daemon) (skinfo : Nat) (path : String) : Option SetInfo :=
  (s.sockets.lookup skinfo).bind (·.my_changes.lookup path)

/-- The table a `set_info_t` is entered in beside `all_changes`: a NULL
    argument, `def_values`, or the `my_changes` table of a socket record. -/
inductive HashRef where
  | null
  | def_values
  | my_changes (skinfo : Nat)

/-- Change the referenced table. The socket record has been dereferenced before. -/
def update_hash (s : Daemon) (hash : HashRef)
    (f : HashTable String SetInfo → HashTable String SetInfo) : Daemon :=
  match hash with
  | .null => s
  | .def_values => { s with def_values := f s.def_values }
  | .my_changes skinfo =>
    match s.sockets.lookup skinfo with
    | none => s
    | some sk => { s with sockets := s.sockets.insert skinfo { sk with my_changes := f sk.my_changes } }

end Daemon

end pwrapi.daemon
