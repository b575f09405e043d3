import PowerApi.Daemon.Set

namespace pwrapi.daemon

def is_persistent (skinfo : Option SocketInfo) : Bool :=
  match skinfo with
  | none => true
  | some sk => decide (sk.cred.uid = 0) && decide (sk.role = .RM)

namespace Daemon

def socket_construct (client_socket : Int) (cred : Ucred) (s : Daemon) : Daemon :=
  let skinfo := s.next_addr
  { s with
    next_addr := s.next_addr + 1
    sockets := s.sockets.insert skinfo { sockid := client_socket, cred }
    open_sockets := s.open_sockets.insert client_socket skinfo }

def socket_lookup (client_socket : Int) (s : Daemon) : Option Nat := s.open_sockets.lookup client_socket

/-- `g_hash_table_foreach_remove` with `set_rollback` on the changes of a socket
record, visited in the given order; each entry leaves the table after its call. -/
def rollback_changes (io : Io) (skinfo : Nat) : List SetInfo → Daemon → Option Daemon
  | [], s => some s
  | setp :: rest, s => do
    let s ← s.set_rollback io setp
    rollback_changes io skinfo rest (s.update_hash (.my_changes skinfo) (·.erase setp.setreq.path))

/-- Close down a socket, visiting its changes in the given order. -/
def socket_destruct (io : Io) (order : List SetInfo) (client_socket : Int) (s : Daemon) : Option Daemon :=
  match s.open_sockets.lookup client_socket with
  | none => some s
  | some skinfo => do
    let s ← rollback_changes io skinfo order { s with open_sockets := s.open_sockets.erase client_socket }
    some { s with sockets := s.sockets.erase skinfo }

/-- An order in which the changes of a socket may be visited. -/
def IterationOrder (order : List SetInfo) (client_socket : Int) (s : Daemon) : Prop :=
  ∀ skinfo ∈ s.open_sockets.lookup client_socket, ∀ sk ∈ s.sockets.lookup skinfo,
    (order : Multiset SetInfo) = HashTable.values sk.my_changes

instance (order : List SetInfo) (client_socket : Int) (s : Daemon) :
    Decidable (IterationOrder order client_socket s) :=
  inferInstanceAs (Decidable (∀ skinfo ∈ s.open_sockets.lookup client_socket, ∀ sk ∈ s.sockets.lookup skinfo, _ = _))

end Daemon

end pwrapi.daemon
