import PowerApi.Daemon.Serial

open Execution

namespace pwrapi.daemon

abbrev MAX_CLIENT_SOCKETS : Int := 300

/-- What the system answers while a client connects: the result of `accept`, the
credentials that `getsockopt` finds, if any, and the permissions of user ids. -/
structure Connect where
  client_socket : Int
  cred : Option Ucred
  check_permissions_file : UInt32 → Int

/-- Where the main thread is: about to wait in `select`, at a descriptor in the
pass over those that were found ready, or past the orderly exit. -/
inductive Place where
  | waiting
  | scanning (select_sockets : Finset Int) (fd : Int)
  | exited
  deriving DecidableEq

/-- The main thread's variables, with what it keeps in the system: the open
descriptors of clients and the file that marks the state as dirty. -/
structure MainLoop where
  state : Daemon
  named_socket : Int
  max_socket : Int
  incoming_sockets : Finset Int
  num_client_sockets : Int := 0
  client_fds : Finset Int := ∅
  dirty : Bool := false
  /-- The responses sent to clients that were turned away. -/
  aborted : List (Int × Response) := []
  place : Place := .waiting

/-- A step of the daemon: `select` returns, the pass goes over a descriptor that
is not ready or ends, a client connects or is served, the worker takes a turn,
or the loop ends and everything is closed. -/
inductive LoopStep where
  | select (select_sockets : Finset Int)
  | skip
  | connect (answer : Connect)
  | serve (req : Option Request) (io : Io) (order : List SetInfo)
  | work (io : Io) (now : UInt64 × UInt64)
  | terminate (closing : Int → Io × List SetInfo)

/-- The start of a daemon that finds the dirty file or not: whether the file is
there when the loop is entered, or `none` when the node is set admin-down instead. -/
def check_state_dirty (allow_restart restart dirty : Bool) : Option Bool :=
  if dirty then if allow_restart || restart then some false else none else some dirty

/-- Wake the worker up with an empty request. -/
def Daemon.worker_stop (s : Daemon) : Daemon :=
  { s with work_queue := s.work_queue ++ [⟨s.next_addr, ⟨0, .PSTATE, .DOUBLE, 0, ⟨0⟩, ""⟩, none, 0⟩] }

namespace MainLoop

def set_state_dirty (l : MainLoop) : MainLoop := { l with dirty := true }

def set_state_clean (l : MainLoop) : MainLoop := { l with dirty := false }

def abort_connect_req (client_socket : Int) (ret_code : Int) (l : MainLoop) : MainLoop :=
  { l with
    aborted := l.aborted ++ [(client_socket, { retval := ret_code })]
    client_fds := l.client_fds.erase client_socket }

/-- Accept a client: its socket with its credentials, or -1 and what is known of the credentials. -/
def process_connect_req (answer : Connect) (cred : Ucred) (l : MainLoop) : (Int × Ucred) × MainLoop :=
  let client_socket := answer.client_socket
  if client_socket < 0 then ((-1, cred), l)
  else
    let l := { l with client_fds := insert client_socket l.client_fds }
    if l.num_client_sockets ≥ MAX_CLIENT_SOCKETS then
      ((-1, cred), l.abort_connect_req client_socket PWR_RET_FAILURE)
    else
      match answer.cred with
      | none => ((-1, cred), l.abort_connect_req client_socket PWR_RET_INVALID)
      | some cred =>
        if answer.check_permissions_file cred.uid ≠ 0 then
          ((-1, cred), l.abort_connect_req client_socket PWR_RET_OP_NO_PERM)
        else ((client_socket, cred), l)

/-- The named socket is ready: a client connects. -/
def connect_client (answer : Connect) (l : MainLoop) : MainLoop :=
  let ((client_socket, cred), l) := l.process_connect_req answer ⟨UInt32.ofInt (-1)⟩
  if client_socket ≥ 0 then
    let l := l.set_state_dirty
    { l with
      num_client_sockets := l.num_client_sockets + 1
      incoming_sockets := insert client_socket l.incoming_sockets
      max_socket := if client_socket ≥ l.max_socket then client_socket + 1 else l.max_socket
      state := l.state.socket_construct client_socket cred }
  else l

/-- `socket_destruct` followed by `close`. -/
def close_socket (io : Io) (order : List SetInfo) (fd : Int) (l : MainLoop) : Option MainLoop := do
  let state ← l.state.socket_destruct io order fd
  some { l with state, client_fds := l.client_fds.erase fd }

/-- A client socket is ready: serve one request, or close the socket. -/
def serve_client (pmlog : Daemon.Pmlog) (req : Option Request) (io : Io) (order : List SetInfo) (fd : Int)
    (l : MainLoop) : Option MainLoop := do
  let (retval, state) ← l.state.process_client_req pmlog fd req
  let l := { l with state }
  if retval ≠ 0 then
    let l ← l.close_socket io order fd
    let l := { l with
      incoming_sockets := l.incoming_sockets.erase fd
      num_client_sockets := l.num_client_sockets - 1 }
    some (if l.num_client_sockets = 0 then l.set_state_clean else l)
  else some l

/-- The pass over all descriptors that closes the clients that are still there. -/
def close_clients (closing : Int → Io × List SetInfo) : List Int → MainLoop → Option MainLoop
  | [], l => some l
  | fd :: rest, l =>
    if fd ∈ l.incoming_sockets then
      l.close_socket (closing fd).1 (closing fd).2 fd >>= close_clients closing rest
    else close_clients closing rest l

/-- What follows the loop. A turn of the worker that is under way when the loop
ends comes before it: the main thread waits for the worker to exit. -/
def shut_down (closing : Int → Io × List SetInfo) (l : MainLoop) : Option MainLoop :=
  let l := { l with
    state := l.state.worker_stop
    incoming_sockets := l.incoming_sockets.erase l.named_socket
    place := .exited }
  l.close_clients closing ((List.range l.max_socket.toNat).map Int.ofNat)

/-- One step; `none` when the threads are elsewhere, or when the step accesses
freed memory. The limit of a pass is read again at each descriptor. -/
def loop_step (pmlog : Daemon.Pmlog) (step : LoopStep) (l : MainLoop) : Option MainLoop :=
  match step, l.place with
  | .select select_sockets, .waiting => some { l with place := .scanning select_sockets 0 }
  | .skip, .scanning select_sockets fd =>
    if l.max_socket ≤ fd then some { l with place := .waiting }
    else if fd ∈ select_sockets then none
    else some { l with place := .scanning select_sockets (fd + 1) }
  | .connect answer, .scanning select_sockets fd =>
    if fd < l.max_socket ∧ fd ∈ select_sockets ∧ fd = l.named_socket then
      some { l.connect_client answer with place := .scanning select_sockets (fd + 1) }
    else none
  | .serve req io order, .scanning select_sockets fd =>
    if fd < l.max_socket ∧ fd ∈ select_sockets ∧ fd ≠ l.named_socket then
      (l.serve_client pmlog req io order fd).map fun l => { l with place := .scanning select_sockets (fd + 1) }
    else none
  | .work _ _, .exited => none
  | .work io now, _ => (l.state.worker_process_items io now).map fun state => { l with state }
  | .terminate closing, .waiting => l.shut_down closing
  | _, _ => none

/-- `select` reports descriptors that it was given, and `accept` returns one that was not open. -/
def LoopPermitted (l : MainLoop) : LoopStep → Prop
  | .select select_sockets => select_sockets ⊆ l.incoming_sockets
  | .connect answer =>
    0 ≤ answer.client_socket → answer.client_socket ≠ l.named_socket ∧ answer.client_socket ∉ l.client_fds
  | _ => True

instance (l : MainLoop) (step : LoopStep) : Decidable (l.LoopPermitted step) :=
  match step with
  | .select select_sockets => inferInstanceAs (Decidable (select_sockets ⊆ l.incoming_sockets))
  | .connect answer => inferInstanceAs (Decidable (0 ≤ answer.client_socket →
      answer.client_socket ≠ l.named_socket ∧ answer.client_socket ∉ l.client_fds))
  | .skip => .isTrue trivial
  | .serve _ _ _ => .isTrue trivial
  | .work _ _ => .isTrue trivial
  | .terminate _ => .isTrue trivial

/-- The loop is about to wait for the next event, or everything has been shut down. -/
def AtRest (l : MainLoop) : Prop := l.place = .waiting ∨ l.place = .exited

/-- The dirty file exists exactly while a client socket is open, the counter counts
the entries of `open_sockets`, and no start mistakes an orderly exit for a crash. -/
structure MarkerMatches (l : MainLoop) : Prop where
  marker : l.dirty = true ↔ l.client_fds.Nonempty
  counter : l.num_client_sockets = l.state.open_sockets.keys.card
  next_start : l.place = .exited → ∀ allow_restart restart,
    check_state_dirty allow_restart restart l.dirty = some false

/-- The loop ends only when no client is left. -/
def ExitsIdle (l : MainLoop) : LoopStep → Prop
  | .terminate _ => l.client_fds = ∅
  | _ => True

/-- The records of who is connected agree with the descriptors that are open. -/
structure Counted (l : MainLoop) : Prop where
  entries : l.state.open_sockets.keys = l.client_fds
  incoming : l.incoming_sockets = insert l.named_socket l.client_fds
  named : l.named_socket ∉ l.client_fds
  bound : ∀ fd ∈ l.client_fds, 0 ≤ fd ∧ fd < l.max_socket
  counter : l.num_client_sockets = l.client_fds.card
  marker : l.dirty = true ↔ l.client_fds.Nonempty

instance (l : MainLoop) (step : LoopStep) : Decidable (l.ExitsIdle step) :=
  match step with
  | .terminate _ => inferInstanceAs (Decidable (l.client_fds = ∅))
  | .select _ => .isTrue trivial
  | .skip => .isTrue trivial
  | .connect _ => .isTrue trivial
  | .serve _ _ _ => .isTrue trivial
  | .work _ _ => .isTrue trivial

/-- The invariant of the loop. The descriptors that a pass has still to visit are open. -/
structure LoopInvariant (l : MainLoop) : Prop where
  counted : l.Counted
  ready : ∀ select_sockets fd, l.place = .scanning select_sockets fd →
    ∀ x ∈ select_sockets, fd ≤ x → x ∈ l.incoming_sockets

end MainLoop

namespace Daemon

section OpenSockets

variable {pmlog : Pmlog} {s s' : Daemon} {fd : Int} {io : Io}

theorem keys_insert (t : HashTable Int Nat) (fd : Int) (skinfo : Nat) :
    (t.insert fd skinfo).keys = insert fd t.keys := by
  ext x
  rw [Finmap.mem_keys, Finmap.mem_insert, Finset.mem_insert, Finmap.mem_keys]

theorem process_client_req_open_sockets {req : Option Request} {retval : Int}
    (h : s.process_client_req pmlog fd req = some (retval, s')) : s'.open_sockets = s.open_sockets := by
  cases req with
  | none =>
    simp only [process_client_req, Option.some.injEq, Prod.mk.injEq] at h
    rw [← h.2]
  | some req =>
    cases process_client_req_step h with
    | unknown => rfl
    | answered => rfl
    | queued => rfl

theorem set_rollback_open_sockets {setp : SetInfo} (h : s.set_rollback io setp = some s') :
    s'.open_sockets = s.open_sockets := by
  have hremove := (s.set_remove_keeps setp .null).open_sockets
  simp only [set_rollback] at h
  split at h
  · cases h
  · next top rest _ =>
    split at h
    · rw [write_attr_value_eq, Option.some.injEq] at h
      rw [← h]
      exact hremove
    · cases h
      exact hremove

theorem rollback_changes_open_sockets {skinfo : Nat} {order : List SetInfo}
    (h : rollback_changes io skinfo order s = some s') : s'.open_sockets = s.open_sockets := by
  induction order generalizing s with
  | nil =>
    cases h
    rfl
  | cons setp rest ih =>
    obtain ⟨s₁, hrollback, hrest⟩ := Option.bind_eq_some_iff.mp h
    rw [ih hrest, (s₁.update_hash_keeps _ _).open_sockets, set_rollback_open_sockets hrollback]

/-- Whatever becomes of its changes, a closed socket leaves the table of open sockets. -/
theorem socket_destruct_open_sockets {order : List SetInfo} (h : s.socket_destruct io order fd = some s') :
    s'.open_sockets = s.open_sockets.erase fd := by
  unfold socket_destruct at h
  split at h
  · next hnone =>
    cases h
    have hnot : fd ∉ s.open_sockets := by rw [← Finmap.lookup_eq_none, hnone]
    exact (Finmap.ext_lookup fun x => by
      rw [HashTable.lookup_erase_eq_ite]
      split
      · next heq => rw [heq, hnone]
      · rfl)
  · next skinfo _ =>
    obtain ⟨s₁, hrollback, hrest⟩ := Option.bind_eq_some_iff.mp h
    cases hrest
    exact rollback_changes_open_sockets hrollback

theorem worker_process_items_open_sockets {now : UInt64 × UInt64} (h : s.worker_process_items io now = some s') :
    s'.open_sockets = s.open_sockets := by
  unfold worker_process_items at h
  split at h
  · cases h
    rfl
  · next setp rest _ =>
    split at h
    · cases h
      rfl
    · obtain ⟨skinfo, sk, _, _, hcase⟩ := worker_process_item_cases h
      obtain ⟨_, hsend⟩ | ⟨s₁, hdef, happly⟩ := hcase
      · obtain ⟨_, _, rfl⟩ := send_response_eq hsend
        rfl
      · obtain ⟨top, _, hsend⟩ := worker_apply_eq (s := s₁.listed skinfo now.2 setp) happly
        obtain ⟨_, _, rfl⟩ := send_response_eq hsend
        exact ((worker_defset_step hdef).keeps.trans (s₁.listed_keeps skinfo now.2 setp)).open_sockets

end OpenSockets

end Daemon

namespace MainLoop

section Steps

variable {pmlog : Daemon.Pmlog} {step : LoopStep} {l l' : MainLoop}

theorem close_socket_eq {io : Io} {order : List SetInfo} {fd : Int} (h : l.close_socket io order fd = some l') :
    ∃ state, state.open_sockets = l.state.open_sockets.erase fd ∧
      l' = { l with state, client_fds := l.client_fds.erase fd } := by
  obtain ⟨state, hdestruct, heq⟩ := Option.bind_eq_some_iff.mp h
  cases heq
  exact ⟨state, Daemon.socket_destruct_open_sockets hdestruct, rfl⟩

theorem serve_client_eq {req : Option Request} {io : Io} {order : List SetInfo} {fd : Int}
    (h : l.serve_client pmlog req io order fd = some l') :
    ∃ state : Daemon, (state.open_sockets = l.state.open_sockets ∧ l' = { l with state }) ∨
      state.open_sockets = l.state.open_sockets.erase fd ∧
        l' = { l with
          state
          client_fds := l.client_fds.erase fd
          incoming_sockets := l.incoming_sockets.erase fd
          num_client_sockets := l.num_client_sockets - 1
          dirty := if l.num_client_sockets - 1 = 0 then false else l.dirty } := by
  obtain ⟨⟨retval, state⟩, hreq, hrest⟩ := Option.bind_eq_some_iff.mp h
  have hopen := Daemon.process_client_req_open_sockets hreq
  simp only at hrest
  split at hrest
  · obtain ⟨l₁, hclose, heq⟩ := Option.bind_eq_some_iff.mp hrest
    obtain ⟨state', hstate', rfl⟩ := close_socket_eq hclose
    refine ⟨state', Or.inr ⟨hstate'.trans (by rw [hopen]), ?_⟩⟩
    rw [← Option.some.inj heq]
    split <;> rfl
  · cases hrest
    exact ⟨state, Or.inl ⟨hopen, rfl⟩⟩

/-- A connecting client is entered in all records, or closed again. -/
theorem connect_client_eq (answer : Connect) (l : MainLoop)
    (hpermitted : 0 ≤ answer.client_socket → answer.client_socket ∉ l.client_fds) :
    (∃ aborted, l.connect_client answer = { l with aborted }) ∨
      0 ≤ answer.client_socket ∧ ∃ cred, l.connect_client answer = { l with
        client_fds := insert answer.client_socket l.client_fds
        dirty := true
        num_client_sockets := l.num_client_sockets + 1
        incoming_sockets := insert answer.client_socket l.incoming_sockets
        max_socket := if answer.client_socket ≥ l.max_socket then answer.client_socket + 1 else l.max_socket
        state := l.state.socket_construct answer.client_socket cred } := by
  have hrefused : ∀ ret_code, 0 ≤ answer.client_socket →
      ({ l with client_fds := insert answer.client_socket l.client_fds } : MainLoop).abort_connect_req
        answer.client_socket ret_code =
          { l with aborted := l.aborted ++ [(answer.client_socket, { retval := ret_code })] } := by
    intro ret_code hsocket
    simp only [abort_connect_req, Finset.erase_insert (hpermitted hsocket)]
  unfold connect_client process_connect_req
  by_cases hsocket : answer.client_socket < 0
  · exact Or.inl ⟨l.aborted, by simp [hsocket]⟩
  · have hsocket' : 0 ≤ answer.client_socket := not_lt.mp hsocket
    simp only [if_neg hsocket]
    split
    · exact Or.inl ⟨_, by simpa using hrefused _ hsocket'⟩
    · split
      · exact Or.inl ⟨_, by simpa using hrefused _ hsocket'⟩
      · next cred _ =>
        split
        · exact Or.inl ⟨_, by simpa using hrefused _ hsocket'⟩
        · exact Or.inr ⟨hsocket', cred, by simp [set_state_dirty]⟩

theorem Counted.connect_client (h : l.Counted) (answer : Connect) (hpermitted : l.LoopPermitted (.connect answer)) :
    (l.connect_client answer).Counted ∧ l.incoming_sockets ⊆ (l.connect_client answer).incoming_sockets := by
  obtain ⟨aborted, heq⟩ | ⟨hsocket, cred, heq⟩ := connect_client_eq answer l fun hsocket => (hpermitted hsocket).2
  · rw [heq]
    exact ⟨⟨h.entries, h.incoming, h.named, h.bound, h.counter, h.marker⟩, fun _ hx => hx⟩
  · obtain ⟨hnamed, hfresh⟩ := hpermitted hsocket
    rw [heq]
    refine ⟨⟨?_, ?_, ?_, ?_, ?_, ?_⟩, fun x hx => Finset.mem_insert_of_mem hx⟩
    · exact (Daemon.keys_insert _ _ _).trans (by rw [h.entries])
    · exact (congrArg _ h.incoming).trans (Finset.insert_comm _ _ _)
    · simpa [Finset.mem_insert, Ne.symm hnamed] using h.named
    · intro fd hfd
      obtain rfl | hold := Finset.mem_insert.mp hfd
      · refine ⟨hsocket, ?_⟩
        simp only
        split <;> omega
      · obtain ⟨hpos, hlt⟩ := h.bound fd hold
        refine ⟨hpos, ?_⟩
        simp only
        split <;> omega
    · simp only [Finset.card_insert_of_notMem hfresh, h.counter]
      omega
    · simp

theorem Counted.serve_client {req : Option Request} {io : Io} {order : List SetInfo} {fd : Int} (h : l.Counted)
    (hfd : fd ∈ l.incoming_sockets) (hnamed : fd ≠ l.named_socket)
    (hserve : l.serve_client pmlog req io order fd = some l') :
    l'.Counted ∧ ∀ x ∈ l.incoming_sockets, x ≠ fd → x ∈ l'.incoming_sockets := by
  obtain ⟨state, ⟨hopen, rfl⟩ | ⟨hopen, rfl⟩⟩ := serve_client_eq hserve
  · exact ⟨⟨hopen ▸ h.entries, h.incoming, h.named, h.bound, h.counter, h.marker⟩, fun x hx _ => hx⟩
  · have hclient : fd ∈ l.client_fds := by
      rw [h.incoming] at hfd
      exact (Finset.mem_insert.mp hfd).resolve_left hnamed
    have hcard : ((l.client_fds.erase fd).card : Int) = l.num_client_sockets - 1 := by
      have hadd := Finset.card_erase_add_one hclient
      rw [h.counter, ← hadd]
      omega
    refine ⟨⟨?_, ?_, ?_, ?_, ?_, ?_⟩, fun x hx hne => Finset.mem_erase.mpr ⟨hne, hx⟩⟩
    · simp only [hopen, Finmap.keys_erase, h.entries]
    · simp only [h.incoming, Finset.erase_insert_of_ne (Ne.symm hnamed)]
    · exact fun hin => h.named (Finset.mem_of_mem_erase hin)
    · exact fun x hx => h.bound x (Finset.mem_of_mem_erase hx)
    · exact hcard.symm
    · simp only [← hcard, Int.natCast_eq_zero, Finset.card_eq_zero]
      split
      · next hempty => simp [hempty]
      · next hne => simp [h.marker.mpr ⟨fd, hclient⟩, Finset.nonempty_iff_ne_empty, hne]

/-- The pass over the descriptors closes those in the given list. -/
theorem close_clients_eq {closing : Int → Io × List SetInfo} {fds : List Int}
    (h : l.close_clients closing fds = some l') (hentries : l.state.open_sockets.keys = l.client_fds)
    (hincoming : l.client_fds ⊆ l.incoming_sockets) :
    l'.place = l.place ∧ l'.dirty = l.dirty ∧ l'.num_client_sockets = l.num_client_sockets ∧
      l'.state.open_sockets.keys = l'.client_fds ∧ l'.client_fds = l.client_fds \ fds.toFinset := by
  induction fds generalizing l with
  | nil =>
    cases h
    exact ⟨rfl, rfl, rfl, hentries, by simp⟩
  | cons fd rest ih =>
    unfold close_clients at h
    split at h
    · obtain ⟨l₁, hclose, hrest⟩ := Option.bind_eq_some_iff.mp h
      obtain ⟨state, hopen, rfl⟩ := close_socket_eq hclose
      have hentries₁ : state.open_sockets.keys = l.client_fds.erase fd := by rw [hopen, Finmap.keys_erase, hentries]
      obtain ⟨hplace, hdirty, hnum, hkeys, hfds⟩ :=
        ih hrest hentries₁ ((Finset.erase_subset _ _).trans hincoming)
      refine ⟨hplace, hdirty, hnum, hkeys, hfds.trans ?_⟩
      rw [List.toFinset_cons, Finset.sdiff_insert, Finset.erase_sdiff_comm]
    · next hnot =>
      obtain ⟨hplace, hdirty, hnum, hkeys, hfds⟩ := ih h hentries hincoming
      refine ⟨hplace, hdirty, hnum, hkeys, hfds.trans ?_⟩
      have hnot' : fd ∉ l.client_fds \ rest.toFinset := fun hin => hnot (hincoming (Finset.sdiff_subset hin))
      rw [List.toFinset_cons, Finset.sdiff_insert, Finset.erase_eq_of_notMem hnot']

/-- Everything is closed in the end, but the marker and the counter stay as they were. -/
theorem shut_down_eq {closing : Int → Io × List SetInfo} (h : l.Counted) (hshut : l.shut_down closing = some l') :
    l'.place = .exited ∧ l'.dirty = l.dirty ∧ l'.num_client_sockets = l.num_client_sockets ∧
      l'.state.open_sockets.keys = ∅ ∧ l'.client_fds = ∅ := by
  have hincoming : l.client_fds ⊆ l.incoming_sockets.erase l.named_socket := by
    rw [h.incoming, Finset.erase_insert h.named]
  obtain ⟨hplace, hdirty, hnum, hkeys, hfds⟩ := close_clients_eq hshut h.entries hincoming
  have hnone : l'.client_fds = ∅ := by
    rw [hfds, Finset.sdiff_eq_empty_iff_subset]
    intro fd hfd
    obtain ⟨hpos, hlt⟩ := h.bound fd hfd
    rw [List.mem_toFinset, List.mem_map]
    refine ⟨fd.toNat, List.mem_range.mpr ?_, ?_⟩
    · simp only
      omega
    · exact Int.toNat_of_nonneg hpos
  exact ⟨hplace, hdirty, hnum, hkeys.trans hnone, hnone⟩

/-- Nothing happens after the orderly exit. -/
theorem loop_step_of_exited (hexited : l.place = .exited) : l.loop_step pmlog step = none := by
  cases step <;> simp [loop_step, hexited]

/-- The next descriptor of a pass: what is still to be visited stays open. -/
theorem LoopInvariant.advance (h : l.LoopInvariant) {select_sockets : Finset Int} {fd : Int}
    (hplace : l.place = .scanning select_sockets fd) (hcounted : l'.Counted)
    (hincoming : ∀ x ∈ l.incoming_sockets, x ≠ fd → x ∈ l'.incoming_sockets) :
    ({ l' with place := .scanning select_sockets (fd + 1) } : MainLoop).LoopInvariant where
  counted := ⟨hcounted.entries, hcounted.incoming, hcounted.named, hcounted.bound, hcounted.counter, hcounted.marker⟩
  ready := by
    rintro _ _ ⟨rfl, rfl⟩ x hx hle
    exact hincoming x (h.ready _ _ hplace x hx (by omega)) (by omega)

/-- A turn of the worker does not concern the loop. -/
theorem LoopInvariant.work (h : l.LoopInvariant) {io : Io} {now : UInt64 × UInt64} {state : Daemon} {place : Place}
    (hplace : l.place = place) (hwork : l.state.worker_process_items io now = some state) :
    ({ l with state, place } : MainLoop).LoopInvariant where
  counted := by
    have hopen := Daemon.worker_process_items_open_sockets hwork
    exact ⟨hopen ▸ h.counted.entries, h.counted.incoming, h.counted.named, h.counted.bound, h.counted.counter,
      h.counted.marker⟩
  ready select_sockets fd hscanning := h.ready select_sockets fd (hplace.trans hscanning)

/-- Until the loop ends, every step keeps the records together. -/
theorem loop_step_invariant (h : l.LoopInvariant) (hpermitted : l.LoopPermitted step)
    (hstep : l.loop_step pmlog step = some l') :
    (l'.LoopInvariant ∧ l'.place ≠ .exited) ∨
      ∃ closing, step = .terminate closing ∧ l.shut_down closing = some l' := by
  have hcounted := h.counted
  have at_place : ∀ place, (∀ select_sockets fd, place = .scanning select_sockets fd →
      ∀ x ∈ select_sockets, fd ≤ x → x ∈ l.incoming_sockets) → ({ l with place } : MainLoop).LoopInvariant :=
    fun place hready => ⟨⟨hcounted.entries, hcounted.incoming, hcounted.named, hcounted.bound, hcounted.counter,
      hcounted.marker⟩, hready⟩
  cases hplace : l.place with
  | waiting =>
    cases step with
    | select select_sockets =>
      simp only [loop_step, hplace, Option.some.injEq] at hstep
      rw [← hstep]
      refine Or.inl ⟨at_place _ ?_, by simp⟩
      rintro _ _ ⟨rfl, rfl⟩ x hx _
      exact hpermitted hx
    | skip => simp [loop_step, hplace] at hstep
    | connect answer => simp [loop_step, hplace] at hstep
    | serve req io order => simp [loop_step, hplace] at hstep
    | work io now =>
      simp only [loop_step, hplace, Option.map_eq_some_iff] at hstep
      obtain ⟨state, hwork, rfl⟩ := hstep
      exact Or.inl ⟨h.work hplace hwork, by simp⟩
    | terminate closing =>
      simp only [loop_step, hplace] at hstep
      exact Or.inr ⟨closing, rfl, hstep⟩
  | scanning select_sockets fd =>
    cases step with
    | select select_sockets => simp [loop_step, hplace] at hstep
    | skip =>
      simp only [loop_step, hplace] at hstep
      split at hstep
      · cases hstep
        exact Or.inl ⟨at_place .waiting (by simp), by simp⟩
      · split at hstep
        · cases hstep
        · next hnot =>
          cases hstep
          refine Or.inl ⟨at_place _ ?_, by simp⟩
          rintro _ _ ⟨rfl, rfl⟩ x hx hle
          exact h.ready _ _ hplace x hx (by omega)
    | connect answer =>
      simp only [loop_step, hplace] at hstep
      split at hstep
      · cases hstep
        obtain ⟨hcounted', hincoming⟩ := hcounted.connect_client answer hpermitted
        exact Or.inl ⟨h.advance hplace hcounted' fun x hx _ => hincoming hx, by simp⟩
      · cases hstep
    | serve req io order =>
      simp only [loop_step, hplace] at hstep
      split at hstep
      · next hready =>
        obtain ⟨_, hin, hnamed⟩ := hready
        obtain ⟨l₁, hserve, rfl⟩ := Option.map_eq_some_iff.mp hstep
        obtain ⟨hcounted', hincoming⟩ :=
          hcounted.serve_client (h.ready _ _ hplace fd hin (Int.le_refl _)) hnamed hserve
        exact Or.inl ⟨h.advance hplace hcounted' hincoming, by simp⟩
      · cases hstep
    | work io now =>
      simp only [loop_step, hplace, Option.map_eq_some_iff] at hstep
      obtain ⟨state, hwork, rfl⟩ := hstep
      exact Or.inl ⟨h.work hplace hwork, by simp⟩
    | terminate closing => simp [loop_step, hplace] at hstep
  | exited =>
    rw [loop_step_of_exited hplace] at hstep
    cases hstep

end Steps

section Runs

variable {pmlog : Daemon.Pmlog}

/-- The main thread's state when the loop is entered, with no dirty file. -/
def enter_loop (files : String → ControlFile) (named_socket : Int) : MainLoop where
  state := Daemon.start files
  named_socket
  max_socket := named_socket + 1
  incoming_sockets := {named_socket}

theorem enter_loop_invariant (files : String → ControlFile) (named_socket : Int) :
    (enter_loop files named_socket).LoopInvariant where
  counted := by
    refine ⟨rfl, rfl, ?_, ?_, rfl, ?_⟩
    · simp [enter_loop]
    · simp [enter_loop]
    · simp [enter_loop]
  ready := by simp [enter_loop]

/-- One step of a run of the daemon. -/
def LoopRun (pmlog : Daemon.Pmlog) (l : MainLoop) (step : LoopStep) (l' : MainLoop) : Prop :=
  l.LoopPermitted step ∧ l.loop_step pmlog step = some l'

theorem LoopInvariant.marker_matches {l : MainLoop} (h : l.LoopInvariant) (hplace : l.place ≠ .exited) :
    l.MarkerMatches where
  marker := h.counted.marker
  counter := by rw [h.counted.entries, h.counted.counter]
  next_start hexited := absurd hexited hplace

/-- After the orderly exit the marker and the counter tell of the clients that
were left when the loop ended. -/
theorem shut_down_marker_matches_iff {l l' : MainLoop} {closing : Int → Io × List SetInfo} (h : l.Counted)
    (hshut : l.shut_down closing = some l') : l'.MarkerMatches ↔ l.client_fds = ∅ := by
  obtain ⟨_, hdirty, hnum, hkeys, hfds⟩ := shut_down_eq h hshut
  constructor
  · intro hmatches
    have hcard := hmatches.counter
    rw [hnum, hkeys, h.counter, Finset.card_empty] at hcard
    exact Finset.card_eq_zero.mp (Int.natCast_eq_zero.mp hcard)
  · intro hempty
    have hclean : l'.dirty = false := by
      rw [hdirty, ← Bool.not_eq_true, h.marker, hempty]
      exact Finset.not_nonempty_empty
    refine ⟨?_, ?_, fun _ _ _ => ?_⟩
    · rw [hdirty, hfds, h.marker, hempty]
    · rw [hnum, hkeys, h.counter, hempty]
    · rw [hclean]
      rfl

/-- In every run, whenever the loop is about to wait and after the orderly exit the
dirty file exists exactly while a client socket is open and the counter is the number
of entries of `open_sockets`, if and only if the loop ends when no client is left. -/
theorem marker_matches_iff (pmlog : Daemon.Pmlog) (files : String → ControlFile) (named_socket : Int)
    (run : List (LoopStep × MainLoop)) (hrun : EachStep (LoopRun pmlog) (enter_loop files named_socket) run) :
    (∀ x ∈ run, x.2.AtRest → x.2.MarkerMatches) ↔
      EachStep (fun l step _ => l.ExitsIdle step) (enter_loop files named_socket) run := by
  refine hrun.forall_iff (I := fun l => l.place ≠ .exited → l.LoopInvariant)
    (P := fun l => l.AtRest → l.MarkerMatches) (fun _ => enter_loop_invariant files named_socket)
    (fun _ => (enter_loop_invariant files named_socket).marker_matches (by simp [enter_loop])) ?_ ?_
  · rintro l step l' ⟨hpermitted, hstep⟩ hinv hplace'
    have hplace : l.place ≠ .exited := fun hexited => by simp [loop_step_of_exited hexited] at hstep
    obtain ⟨hinv', _⟩ | ⟨closing, _, hshut⟩ := loop_step_invariant (hinv hplace) hpermitted hstep
    · exact hinv'
    · exact absurd (shut_down_eq (hinv hplace).counted hshut).1 hplace'
  · rintro l step l' ⟨hpermitted, hstep⟩ hinv _
    have hplace : l.place ≠ .exited := fun hexited => by simp [loop_step_of_exited hexited] at hstep
    cases step with
    | terminate closing =>
      have hshut : l.shut_down closing = some l' := by
        cases hat : l.place with
        | waiting => simpa only [loop_step, hat] using hstep
        | scanning select_sockets fd => simp [loop_step, hat] at hstep
        | exited => exact absurd hat hplace
      have hexited : l'.place = .exited := (shut_down_eq (hinv hplace).counted hshut).1
      have hiff := shut_down_marker_matches_iff (hinv hplace).counted hshut
      exact ⟨fun h => hiff.mp (h (Or.inr hexited)), fun h _ => hiff.mpr h⟩
    | _ =>
      obtain ⟨hinv', hplace'⟩ | ⟨closing, heq, _⟩ := loop_step_invariant (hinv hplace) hpermitted hstep
      · exact ⟨fun _ => trivial, fun _ _ => hinv'.marker_matches hplace'⟩
      · cases heq

/-- The run that takes the given steps. -/
def loop_run (steps : List LoopStep) : List (LoopStep × MainLoop) :=
  run_of (loop_step some) steps (enter_loop (fun _ => .uint64 10) 3)

theorem loop_run_steps {steps : List LoopStep}
    (h : EachStep (fun l step _ => l.LoopPermitted step) (enter_loop (fun _ => .uint64 10) 3) (loop_run steps)) :
    EachStep (LoopRun some) (enter_loop (fun _ => .uint64 10) 3) (loop_run steps) :=
  ((eachStep_run_of _ _ _).and h).imp fun _ _ _ h => ⟨h.2, h.1⟩

/-- A client connects and, if `leaves`, disconnects before the daemon is terminated. -/
def one_client (leaves : Bool) : List LoopStep :=
  [.select {3}, .skip, .skip, .skip, .connect ⟨4, some ⟨1000⟩, fun _ => 0⟩, .skip, .skip] ++
    (if leaves then [.select {4}, .skip, .skip, .skip, .skip, .serve none {} [], .skip] else []) ++
    [.terminate fun _ => ({}, [])]

theorem marker_matches_iff_one_client :
    (∃ x ∈ loop_run (one_client true), x.2.place = .exited) ∧
    ∀ x ∈ loop_run (one_client true), x.2.AtRest → x.2.MarkerMatches := by
  refine ⟨by decide, ?_⟩
  refine (marker_matches_iff some (fun _ => .uint64 10) 3 _ (loop_run_steps ?_)).mpr ?_
  · decide
  · decide

/-- A client that is connected when the daemon is terminated: the dirty file stays. -/
theorem marker_does_not_match :
    ¬ ∀ files named_socket run, EachStep (LoopRun some) (enter_loop files named_socket) run →
      ∀ x ∈ run, x.2.AtRest → x.2.MarkerMatches := by
  intro hclaim
  have hmarked : ∃ x ∈ loop_run (one_client false), x.2.place = .exited ∧
      check_state_dirty false false x.2.dirty = none := by decide
  obtain ⟨x, hx, hexited, hmistaken⟩ := hmarked
  have hmatches := hclaim _ _ _ (loop_run_steps (by decide)) x hx (Or.inr hexited)
  rw [hmatches.next_start hexited] at hmistaken
  cases hmistaken

end Runs

end MainLoop

end pwrapi.daemon
