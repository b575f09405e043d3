import PowerApi.Lib.Execution
import PowerApi.Daemon.RequestSpec
import PowerApi.Daemon.WorkerInvariant
import PowerApi.Daemon.Rollback

open Execution

namespace pwrapi.daemon

/-- What the daemon does when it does one thing at a time: a request that is
queued is processed by the worker before anything else happens. -/
inductive Operation where
  | connect (client_socket : Int) (cred : Ucred)
  | request (client_socket : Int) (req : Request) (io : Io) (now : UInt64 × UInt64)
  | disconnect (client_socket : Int) (io : Io) (order : List SetInfo)

namespace Daemon

def perform (pmlog : Pmlog) (op : Operation) (s : Daemon) : Option Daemon :=
  match op with
  | .connect client_socket cred => some (s.socket_construct client_socket cred)
  | .request client_socket req io now => do
    let (_, s) ← s.process_client_req pmlog client_socket (some req)
    s.worker_process_items io now
  | .disconnect client_socket io order => s.socket_destruct io order client_socket

/-- The system hands out socket numbers that are not in use, and a hash table is
iterated in some order of its entries. -/
def Permitted (s : Daemon) : Operation → Prop
  | .connect client_socket _ => s.open_sockets.lookup client_socket = none
  | .request _ _ _ _ => True
  | .disconnect client_socket _ order => s.IterationOrder order client_socket

instance (s : Daemon) (op : Operation) : Decidable (s.Permitted op) :=
  match op with
  | .connect client_socket _ => inferInstanceAs (Decidable (s.open_sockets.lookup client_socket = none))
  | .request _ _ _ _ => .isTrue trivial
  | .disconnect client_socket _ order => inferInstanceAs (Decidable (s.IterationOrder order client_socket))

/-- The daemon's state when it starts. -/
def start (files : String → ControlFile) : Daemon := { files }

/-- The invariant of the daemon between operations. -/
structure SerialInvariant (s : Daemon) : Prop where
  store : s.StoreInvariant
  idle : s.work_queue = []

/-- A set request on the socket is passed to the worker. -/
def Accepts (s : Daemon) (client_socket : Int) (skinfo : Nat) (sk : SocketInfo) : Prop :=
  s.open_sockets.lookup client_socket = some skinfo ∧ s.sockets.lookup skinfo = some sk ∧
    sk.role ≠ .NOT_SPECIFIED

/-- The record that a set request on a socket is queued as. -/
def queued_item (s : Daemon) (skinfo : Nat) (set : SetReq) : SetInfo :=
  { addr := s.next_addr, setreq := set, skinfo := some skinfo }

/-- What an operation can do to the store: nothing, process one set request, or
roll back the changes of one socket. -/
inductive StoreStep (s : Daemon) : Operation → Daemon → Prop where
  | quiet (op : Operation) (s' : Daemon) (hsame : s.SameStore s')
      (hrefused : ∀ client_socket set io now, op = .request client_socket (.PwrSET set) io now →
        ∀ skinfo sk, ¬ s.Accepts client_socket skinfo sk)
      (hclosed : ∀ client_socket io order, op = .disconnect client_socket io order →
        s.open_sockets.lookup client_socket = none) : StoreStep s op s'
  | set (client_socket : Int) (set : SetReq) (io : Io) (now : UInt64 × UInt64) (skinfo : Nat) (sk : SocketInfo)
      (s' : Daemon) (haccepts : s.Accepts client_socket skinfo sk)
      (hprocess : ({ s with next_addr := s.next_addr + 1 } : Daemon).worker_process_item io now
        (s.queued_item skinfo set) = some s') :
      StoreStep s (.request client_socket (.PwrSET set) io now) s'
  | closed (client_socket : Int) (io : Io) (order : List SetInfo) (skinfo : Nat) (s' : Daemon)
      (hopen : s.open_sockets.lookup client_socket = some skinfo)
      (hdestructs : s.Destructs io client_socket skinfo s') :
      StoreStep s (.disconnect client_socket io order) s'

theorem start_invariant (files : String → ControlFile) : (start files).SerialInvariant where
  store := by
    refine ⟨⟨fun _ => rfl, fun _ => List.nodup_nil, ?_, ?_, ?_⟩, ⟨?_, ?_⟩, ?_⟩
    · simp [start, slist]
    · simp [start]
    · simp [start, my_change]
    · simp [start]
    · simp [start]
    · simp [start, Defaulted]
  idle := rfl

section Connect

variable {s : Daemon} {client_socket : Int}

/-- No record is allocated yet at the next address. -/
theorem Linked.lookup_next_addr (h : s.Linked) : s.sockets.lookup s.next_addr = none := by
  cases hsk : s.sockets.lookup s.next_addr with
  | none => rfl
  | some sk => exact absurd (h.addr_lt _ sk hsk) (Nat.lt_irrefl _)

theorem socket_construct_my_change (h : s.Linked) (cred : Ucred) (skinfo : Nat) (path : String) :
    (s.socket_construct client_socket cred).my_change skinfo path = s.my_change skinfo path := by
  rw [socket_construct, my_change, HashTable.lookup_insert_eq_ite]
  split
  · next heq => rw [my_change, heq, h.lookup_next_addr, Option.bind_some, Finmap.lookup_empty, Option.bind_none]
  · rfl

/-- A new socket has no changes. -/
theorem socket_construct_invariant (hinv : s.StoreInvariant) (cred : Ucred)
    (hfresh : s.open_sockets.lookup client_socket = none) :
    (s.socket_construct client_socket cred).StoreInvariant where
  balanced := by
    have hnone := hinv.linked.lookup_next_addr
    refine hinv.balanced.congr rfl rfl (Nat.le_succ _) ?_ (socket_construct_my_change hinv.linked cred)
    intro path
    rw [changes, socket_construct, HashTable.values_insert_of_lookup_none hnone, Multiset.filterMap_cons_none,
      changes]
    rfl
  linked := by
    have hnone := hinv.linked.lookup_next_addr
    refine ⟨fun fd skinfo => ?_, fun skinfo sk hsk => ?_⟩
    · simp only [socket_construct, HashTable.lookup_insert_eq_ite]
      by_cases hfd : fd = client_socket
      · subst hfd
        by_cases hskinfo : skinfo = s.next_addr
        · simp [hskinfo]
        · have hother := (hinv.linked.open_iff fd skinfo).mpr.mt (by simp [hfresh])
          simp only [if_true, Option.some.injEq, if_neg hskinfo, hother, iff_false]
          exact Ne.symm hskinfo
      · rw [if_neg hfd, hinv.linked.open_iff]
        by_cases hskinfo : skinfo = s.next_addr
        · subst hskinfo
          simp [hnone, Ne.symm hfd]
        · simp [hskinfo]
    · simp only [socket_construct, HashTable.lookup_insert_eq_ite] at hsk
      split at hsk
      · next heq => exact heq ▸ Nat.lt_succ_self _
      · exact (hinv.linked.addr_lt skinfo sk hsk).trans (Nat.lt_succ_self _)
  defaulted := hinv.defaulted

end Connect

section Perform

variable {pmlog : Pmlog} {op : Operation} {s s' : Daemon}

/-- A request that is answered at once changes neither the store nor the links between the tables. -/
theorem answered_invariant (hinv : s.StoreInvariant) {skinfo : Nat} {sk sk' : SocketInfo} (sent : List Written)
    (hsk : s.sockets.lookup skinfo = some sk) (hsockid : sk'.sockid = sk.sockid)
    (hchanges : sk'.my_changes = sk.my_changes) :
    ({ s with sockets := s.sockets.insert skinfo sk', sent } : Daemon).StoreInvariant ∧
      s.SameStore { s with sockets := s.sockets.insert skinfo sk', sent } := by
  have hmine := my_change_of_same { s with sockets := s.sockets.insert skinfo sk', sent } sk' hsk hchanges rfl
  refine ⟨⟨hinv.balanced.of_same sk' hsk hchanges rfl rfl rfl rfl, ⟨fun fd skinfo' => ?_, fun skinfo' sk₁ hsk₁ => ?_⟩,
    hinv.defaulted⟩, ⟨rfl, rfl, rfl, rfl, rfl, hmine⟩⟩
  · simp only [HashTable.lookup_insert_eq_ite]
    rw [hinv.linked.open_iff]
    split
    · next heq =>
      subst heq
      simp [hsk, hsockid]
    · rfl
  · simp only [HashTable.lookup_insert_eq_ite] at hsk₁
    split at hsk₁
    · next heq => exact heq ▸ hinv.linked.addr_lt skinfo sk hsk
    · exact hinv.linked.addr_lt skinfo' sk₁ hsk₁

theorem next_addr_invariant (hinv : s.StoreInvariant) :
    ({ s with next_addr := s.next_addr + 1 } : Daemon).StoreInvariant :=
  ⟨hinv.balanced.congr rfl rfl (Nat.le_succ _) (fun _ => rfl) (fun _ _ => rfl),
    ⟨hinv.linked.open_iff, fun skinfo sk hsk => (hinv.linked.addr_lt skinfo sk hsk).trans (Nat.lt_succ_self _)⟩,
    hinv.defaulted⟩

/-- A record at a new address is in no list. -/
theorem queued_item_unlisted (hinv : s.StoreInvariant) (skinfo : Nat) (set : SetReq) :
    ({ s with next_addr := s.next_addr + 1 } : Daemon).Unlisted (s.queued_item skinfo set) := fun e he =>
  Nat.ne_of_lt (hinv.balanced.addr_lt set.path e he)

theorem worker_process_items_idle (io : Io) (now : UInt64 × UInt64) (hidle : s.work_queue = []) :
    s.worker_process_items io now = some s := by
  rw [worker_process_items, hidle]

/-- A request queued by an idle daemon is processed next. -/
theorem worker_process_items_queued (io : Io) (now : UInt64 × UInt64) (hidle : s.work_queue = []) (skinfo : Nat)
    (set : SetReq) :
    ({ s with
      next_addr := s.next_addr + 1
      work_queue := s.work_queue ++ [s.queued_item skinfo set] } : Daemon).worker_process_items io now =
        ({ s with next_addr := s.next_addr + 1 } : Daemon).worker_process_item io now (s.queued_item skinfo set) := by
  rw [worker_process_items, hidle, List.nil_append]
  rfl

/-- Every operation is one of the store's steps and keeps the invariant. -/
theorem perform_step (hinv : s.SerialInvariant) (hpermitted : s.Permitted op)
    (h : s.perform pmlog op = some s') : s.StoreStep op s' ∧ s'.SerialInvariant := by
  cases op with
  | connect client_socket cred =>
    cases h
    refine ⟨.quiet _ _ ⟨rfl, rfl, rfl, rfl, rfl, ?_⟩ (by simp) (by simp), ?_, hinv.idle⟩
    · exact socket_construct_my_change hinv.store.linked cred
    · exact socket_construct_invariant hinv.store cred hpermitted
  | request client_socket req io now =>
    obtain ⟨⟨retval, s₁⟩, hreq, hwork⟩ := Option.bind_eq_some_iff.mp h
    change s₁.worker_process_items io now = some s' at hwork
    cases process_client_req_step hreq with
    | unknown hopen =>
      rw [worker_process_items_idle io now hinv.idle, Option.some.injEq] at hwork
      subst hwork
      refine ⟨.quiet _ _ ⟨rfl, rfl, rfl, rfl, rfl, fun _ _ => rfl⟩ ?_ (by simp), hinv⟩
      intro fd set io' now' heq skinfo sk haccepts
      cases heq
      rw [haccepts.1] at hopen
      cases hopen
    | answered skinfo sk sk' resp hopen hsk hsockid hcred hchanges hseqnum hresp hrefused =>
      rw [worker_process_items_idle io now (by exact hinv.idle), Option.some.injEq] at hwork
      subst hwork
      obtain ⟨hstore, hsame⟩ := answered_invariant hinv.store _ hsk hsockid hchanges
      refine ⟨.quiet _ _ hsame ?_ (by simp), hstore, hinv.idle⟩
      intro fd set io' now' heq skinfo' sk₁ haccepts
      cases heq
      obtain ⟨hopen', hsk', hrole⟩ := haccepts
      rw [hopen] at hopen'
      cases hopen'
      rw [hsk] at hsk'
      cases hsk'
      exact hrole (hrefused set rfl)
    | queued skinfo sk set hset hopen hsk hrole =>
      subst hset
      have hitem := worker_process_items_queued io now hinv.idle skinfo set
      rw [queued_item] at hitem
      rw [hitem] at hwork
      obtain ⟨hstore, hkeeps⟩ := worker_process_item_invariant (next_addr_invariant hinv.store)
        (queued_item_unlisted hinv.store skinfo set) (Nat.lt_succ_self _) hwork
      exact ⟨.set client_socket set io now skinfo sk s' ⟨hopen, hsk, hrole⟩ hwork, hstore,
        hkeeps.work_queue.trans hinv.idle⟩
  | disconnect client_socket io order =>
    cases hopen : s.open_sockets.lookup client_socket with
    | none =>
      simp only [perform, socket_destruct, hopen, Option.some.injEq] at h
      subst h
      refine ⟨.quiet _ _ ⟨rfl, rfl, rfl, rfl, rfl, fun _ _ => rfl⟩ (by simp) ?_, hinv⟩
      intro fd io' order' heq
      cases heq
      exact hopen
    | some skinfo =>
      rw [perform, socket_destruct_eq io hpermitted hinv.store hopen, Option.some.injEq] at h
      subst h
      have hdestructs := destructed_destructs io hpermitted hinv.store hopen
      exact ⟨.closed client_socket io order skinfo _ hopen hdestructs, hdestructs.invariant hinv.store hopen,
        hdestructs.work_queue.trans hinv.idle⟩

/-- No operation dereferences a record that is gone or the head of an empty list. -/
theorem perform_success (pmlog : Pmlog) (hinv : s.SerialInvariant) (hpermitted : s.Permitted op) :
    ∃ s', s.perform pmlog op = some s' := by
  cases op with
  | connect client_socket cred => exact ⟨_, rfl⟩
  | request client_socket req io now =>
    obtain ⟨⟨retval, s₁⟩, hreq⟩ := process_client_req_success pmlog client_socket req hinv.store.linked
    simp only [perform, hreq, Option.bind_eq_bind, Option.bind_some]
    cases process_client_req_step hreq with
    | unknown hopen => exact ⟨_, worker_process_items_idle io now hinv.idle⟩
    | answered skinfo sk sk' resp => exact ⟨_, worker_process_items_idle io now hinv.idle⟩
    | queued skinfo sk set hset hopen hsk hrole =>
      have hitem := worker_process_items_queued io now hinv.idle skinfo set
      rw [queued_item] at hitem
      rw [hitem]
      exact worker_process_item_success io now rfl hsk
  | disconnect client_socket io order =>
    cases hopen : s.open_sockets.lookup client_socket with
    | none => exact ⟨s, by simp [perform, socket_destruct, hopen]⟩
    | some skinfo => exact ⟨_, socket_destruct_eq io hpermitted hinv.store hopen⟩

end Perform

end Daemon

end pwrapi.daemon
