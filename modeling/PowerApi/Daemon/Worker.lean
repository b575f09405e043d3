import PowerApi.Daemon.Socket

namespace pwrapi.daemon

namespace Daemon

/-- Number the response and write it to the socket of the record; `none` when
    the record is no longer allocated. -/
def send_response (skinfo : Nat) (resp : Response) (s : Daemon) : Option Daemon := do
  let sk ← s.sockets.lookup skinfo
  let written : Written := { record := skinfo, fd := sk.sockid, resp := { resp with sequence := sk.seqnum } }
  some { s with
    sockets := s.sockets.insert skinfo { sk with seqnum := sk.seqnum + 1 }
    sent := s.sent ++ [written] }

def send_ret_code_response (skinfo : Nat) (ret_code : Int) (s : Daemon) : Option Daemon :=
  s.send_response skinfo { retval := ret_code }

/-- Stamp a default record with the time and enter it in `def_values` and `all_changes`. -/
def worker_insert_defset (now : UInt64) (defset : SetInfo) (s : Daemon) : Daemon :=
  ({ s with clock := now } : Daemon).set_insert { defset with timestamp := now } .def_values

/-- The first part of `worker_process_item`: see that the path has a default
value, and that a persistent request replaces it. `none` when the default value
cannot be read. -/
def worker_defset (io : Io) (now : UInt64) (persist : Bool) (newset : SetInfo) (s : Daemon) : Option Daemon :=
  match s.def_values.lookup newset.setreq.path with
  | none =>
    let (defset, s) := s.set_create_item newset.setreq none
    if persist then some (s.worker_insert_defset now defset)
    else (s.read_attr_value io defset).map fun defset => s.worker_insert_defset now defset
  | some defset =>
    if persist then
      let s := s.set_remove defset .def_values
      let setreq := { defset.setreq with value := newset.setreq.value }
      some (s.worker_insert_defset now { defset with setreq })
    else some s

/-- Remove an earlier change of the path by the same socket. -/
def worker_remove_oldset (skinfo : Nat) (path : String) (s : Daemon) : Daemon :=
  match s.my_change skinfo path with
  | none => s
  | some oldset => s.set_remove oldset (.my_changes skinfo)

/-- The last part of `worker_process_item`: write the new value if it ties with
    the head of the list, and answer. -/
def worker_apply (io : Io) (skinfo : Nat) (newset : SetInfo) (s : Daemon) : Option Daemon :=
  match s.slist newset.setreq.path with
  | [] => none
  | top :: _ =>
    if attr_value_comp newset top = 0 then
      let (retval, s) := s.write_attr_value io newset
      s.send_ret_code_response skinfo (if retval ≠ 0 then PWR_RET_FAILURE else PWR_RET_SUCCESS)
    else s.send_ret_code_response skinfo PWR_RET_SUCCESS

/-- Process one set request, reading the clock twice. `none` when a record that
is not allocated or the head of an empty list would be dereferenced. -/
def worker_process_item (io : Io) (now : UInt64 × UInt64) (newset : SetInfo) (s : Daemon) : Option Daemon := do
  let skinfo ← newset.skinfo
  let sk ← s.sockets.lookup skinfo
  match s.worker_defset io now.1 (is_persistent (some sk)) newset with
  | none => ({ s with io_failed := true } : Daemon).send_ret_code_response skinfo PWR_RET_FAILURE
  | some s =>
    let s := s.worker_remove_oldset skinfo newset.setreq.path
    let newset := { newset with timestamp := now.2 }
    let s := ({ s with clock := now.2 } : Daemon).set_insert newset (.my_changes skinfo)
    s.worker_apply io skinfo newset

/-- One turn of the loop of `worker_process_items`: pop the oldest request and
process it. With an empty queue the thread waits; a request without a socket
is the wake-up call for shutting down. -/
def worker_process_items (io : Io) (now : UInt64 × UInt64) (s : Daemon) : Option Daemon :=
  match s.work_queue with
  | [] => some s
  | setp :: rest =>
    let s := { s with work_queue := rest }
    if setp.skinfo = none then some s else s.worker_process_item io now setp

end Daemon

end pwrapi.daemon
