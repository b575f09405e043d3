import PowerApi.Lib.SortedList
import PowerApi.Daemon.State

open SortedList

namespace pwrapi.daemon

/-- A negative result means that `v1` is higher priority than `v2`. -/
def value_compare (data_type : PwrAttrDataType) (v1 v2 : TypeUnion) : Int :=
  match data_type with
  | .UINT64 =>
    if v1.ivalue = v2.ivalue then 0
    else if v1.ivalue < v2.ivalue then -1 else 1
  | .DOUBLE =>
    if v1.fvalue.feq v2.fvalue then 0
    else if v1.fvalue.flt v2.fvalue then -1 else 1
  | _ => 0

/-- The userspace governor has highest priority; the others go by age, the newer first. -/
def gov_compare (s1 s2 : SetInfo) : Int :=
  let g1 := s1.setreq.value.ivalue
  let g2 := s2.setreq.value.ivalue
  if g1 = g2 then 0
  else if g1 = PwrAttrGov.LINUX_USERSPACE.ivalue then -1
  else if g2 = PwrAttrGov.LINUX_USERSPACE.ivalue then 1
  else if s1.timestamp > s2.timestamp then -1 else 1

/-- A negative result means that `s1` is higher priority than `s2`. -/
def attr_value_comp (s1 s2 : SetInfo) : Int :=
  match s1.setreq.attr with
  | .CSTATE_LIMIT | .FREQ_REQ | .FREQ_LIMIT_MAX | .POWER_LIMIT_MAX =>
    value_compare s1.setreq.data_type s1.setreq.value s2.setreq.value
  | .FREQ_LIMIT_MIN | .POWER_LIMIT_MIN =>
    -- higher value is higher priority
    value_compare s1.setreq.data_type s2.setreq.value s1.setreq.value
  | .GOV => gov_compare s1 s2
  | _ => 0

namespace Daemon

def set_insert (setp : SetInfo) (hash : HashRef) (s : Daemon) : Daemon :=
  let path := setp.setreq.path
  let s := s.update_hash hash (·.insert path setp)
  let slist := insert_sorted (s.slist path) setp attr_value_comp
  { s with all_changes := s.all_changes.insert path slist }

def set_remove (setp : SetInfo) (hash : HashRef) (s : Daemon) : Daemon :=
  let path := setp.setreq.path
  let s := s.update_hash hash (·.erase path)
  let slist := remove SetInfo.addr (s.slist path) setp
  { s with all_changes := s.all_changes.insert path slist }

/-- A new zeroed record holding a copy of the request. -/
def set_create_item (setreq : SetReq) (skinfo : Option Nat) (s : Daemon) : SetInfo × Daemon :=
  ({ addr := s.next_addr, setreq, skinfo }, { s with next_addr := s.next_addr + 1 })

/-- The default record with the value found in its control file, or `none` on an error. -/
def read_attr_value (io : Io) (setp : SetInfo) (s : Daemon) : Option SetInfo :=
  let setreq := setp.setreq
  if io.read_fault setreq.path then none
  else (read_attr_file setreq.attr setreq.data_type (s.files setreq.path)).map fun value =>
    { setp with setreq := { setreq with value } }

def write_attr_value (io : Io) (setp : SetInfo) (s : Daemon) : Int × Daemon :=
  let setreq := setp.setreq
  match io.write_fault setreq.path with
  | some left =>
    (1, { s with files := Function.update s.files setreq.path left, io_failed := true })
  | none =>
    match write_attr_file setreq.attr setreq.data_type setreq.value (s.files setreq.path) with
    | none => (1, { s with io_failed := true })
    | some file => (0, { s with files := Function.update s.files setreq.path file })

/-- Take a change of a closing socket out of `all_changes` and write the next
value if the change was the head. `none` when the list is empty afterwards and
its head would be dereferenced. -/
def set_rollback (io : Io) (setp : SetInfo) (s : Daemon) : Option Daemon :=
  let s := s.set_remove setp .null
  match s.slist setp.setreq.path with
  | [] => none
  | top :: _ =>
    if attr_value_comp setp top < 0 then some (s.write_attr_value io top).2 else some s

end Daemon

end pwrapi.daemon
