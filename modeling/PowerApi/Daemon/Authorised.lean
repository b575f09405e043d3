import PowerApi.Daemon.Threads

open Execution

namespace pwrapi.daemon

namespace Daemon

/-- One error response is sent on the connection, and nothing is queued. -/
def Refuses (skinfo : Nat) (s s' : Daemon) : Prop :=
  s'.work_queue = s.work_queue ∧
    ∃ written, s'.sent = s.sent ++ [written] ∧ written.record = skinfo ∧ written.resp.retval ≠ PWR_RET_SUCCESS

/-- The set request is put on the work queue, and nothing is answered yet. -/
def Queues (skinfo : Nat) (set : SetReq) (s s' : Daemon) : Prop :=
  s'.sent = s.sent ∧ ∃ item, s'.work_queue = s.work_queue ++ [item] ∧ item.skinfo = some skinfo ∧ item.setreq = set

/-- The role and the context name that a connection is authorised with. -/
def credentials (s : Daemon) (skinfo : Nat) : Option (PwrRole × Option String) :=
  (s.sockets.lookup skinfo).map fun sk => (sk.role, sk.context_name)

/-- A step that opens no old connection again and leaves the credentials of the
connections that stay open as they were. -/
structure KeepsCredentials (s s' : Daemon) : Prop where
  opened : ∀ fd skinfo, s'.open_sockets.lookup fd = some skinfo → s.open_sockets.lookup fd = some skinfo
  records : ∀ skinfo sk', s'.sockets.lookup skinfo = some sk' →
    ∃ sk, s.sockets.lookup skinfo = some sk ∧ sk'.role = sk.role
  next_addr : s.next_addr ≤ s'.next_addr

section Credentials

variable {s s₁ s' : Daemon} {skinfo : Nat}

theorem KeepsCredentials.refl (s : Daemon) : s.KeepsCredentials s :=
  ⟨fun _ _ h => h, fun _ sk' h => ⟨sk', h, rfl⟩, Nat.le_refl _⟩

theorem Keeps.keeps_credentials (h : s.Keeps s') : s.KeepsCredentials s' where
  opened fd skinfo hopen := by rwa [h.open_sockets] at hopen
  records skinfo sk' hsk' := by
    obtain ⟨sk, hsk, hid⟩ := h.lookup_back hsk'
    exact ⟨sk, hsk, congrArg (fun id => id.2.2.1) hid.symm⟩
  next_addr := h.next_addr

theorem KeepsCredentials.trans (h : s.KeepsCredentials s₁) (h' : s₁.KeepsCredentials s') : s.KeepsCredentials s' where
  opened fd skinfo hopen := h.opened fd skinfo (h'.opened fd skinfo hopen)
  records skinfo sk' hsk' := by
    obtain ⟨sk₁, hsk₁, hrole⟩ := h'.records skinfo sk' hsk'
    obtain ⟨sk, hsk, hrole'⟩ := h.records skinfo sk₁ hsk₁
    exact ⟨sk, hsk, hrole.trans hrole'⟩
  next_addr := h.next_addr.trans h'.next_addr

theorem send_response_keeps {resp : Response} (h : s.send_response skinfo resp = some s') : s.Keeps s' := by
  obtain ⟨sk, hsk, rfl⟩ := send_response_eq h
  exact keeps_of_sockets_insert { sk with seqnum := sk.seqnum + 1 } hsk rfl rfl rfl (Nat.le_refl _) rfl

theorem write_attr_value_keeps (io : Io) (setp : SetInfo) (s : Daemon) : s.Keeps (s.write_attr_value io setp).2 := by
  rw [write_attr_value_eq]
  exact ⟨rfl, fun _ => rfl, Nat.le_refl _, rfl⟩

theorem worker_process_item_keeps {io : Io} {now : UInt64 × UInt64} {newset : SetInfo}
    (h : s.worker_process_item io now newset = some s') : s.Keeps s' := by
  obtain ⟨skinfo, sk, _, _, hcase⟩ := worker_process_item_cases h
  obtain ⟨_, hsend⟩ | ⟨s₁, hdef, happly⟩ := hcase
  · have hkeeps := send_response_keeps hsend
    exact ⟨hkeeps.open_sockets, hkeeps.records, hkeeps.next_addr, hkeeps.work_queue⟩
  · obtain ⟨top, _, hsend⟩ := worker_apply_eq (s := s₁.listed skinfo now.2 newset) happly
    have hkeeps := send_response_keeps hsend
    have hlisted := (worker_defset_step hdef).keeps.trans (s₁.listed_keeps skinfo now.2 newset)
    exact hlisted.trans ⟨hkeeps.open_sockets, hkeeps.records, hkeeps.next_addr, hkeeps.work_queue⟩

theorem worker_process_items_credentials {io : Io} {now : UInt64 × UInt64}
    (h : s.worker_process_items io now = some s') : s.KeepsCredentials s' := by
  unfold worker_process_items at h
  split at h
  · cases h
    exact .refl _
  · next setp rest hqueue =>
    have hpopped : s.KeepsCredentials { s with work_queue := rest } :=
      ⟨fun _ _ h => h, fun _ sk' h => ⟨sk', h, rfl⟩, Nat.le_refl _⟩
    simp only at h
    split at h
    · cases h
      exact hpopped
    · exact hpopped.trans (worker_process_item_keeps h).keeps_credentials

theorem set_rollback_keeps {io : Io} {setp : SetInfo} (h : s.set_rollback io setp = some s') : s.Keeps s' := by
  have hremove := s.set_remove_keeps setp .null
  unfold set_rollback at h
  simp only at h
  split at h
  · cases h
  · split at h
    · cases h
      exact hremove.trans (write_attr_value_keeps _ _ _)
    · cases h
      exact hremove

theorem rollback_changes_keeps {io : Io} {order : List SetInfo} (h : rollback_changes io skinfo order s = some s') :
    s.Keeps s' := by
  induction order generalizing s with
  | nil =>
    cases h
    exact .refl _
  | cons setp rest ih =>
    obtain ⟨s₁, hrollback, hrest⟩ := Option.bind_eq_some_iff.mp h
    exact ((set_rollback_keeps hrollback).trans (s₁.update_hash_keeps _ _)).trans (ih hrest)

theorem socket_destruct_credentials {io : Io} {order : List SetInfo} {fd : Int}
    (h : s.socket_destruct io order fd = some s') : s.KeepsCredentials s' := by
  unfold socket_destruct at h
  split at h
  · cases h
    exact .refl _
  · next skinfo hopen =>
    obtain ⟨s₁, hrollback, heq⟩ := Option.bind_eq_some_iff.mp h
    cases heq
    have hkeeps := (rollback_changes_keeps hrollback).keeps_credentials
    refine ⟨fun fd' skinfo' hopen' => ?_, fun skinfo' sk' hsk' => ?_, hkeeps.next_addr⟩
    · have hopen₁ := hkeeps.opened fd' skinfo' hopen'
      rw [HashTable.lookup_erase_eq_ite] at hopen₁
      split at hopen₁
      · cases hopen₁
      · exact hopen₁
    · rw [HashTable.lookup_erase_eq_ite] at hsk'
      split at hsk'
      · cases hsk'
      · exact hkeeps.records skinfo' sk' hsk'

end Credentials

section Requests

variable {pmlog : Pmlog} {client_socket : Int} {s s' : Daemon} {skinfo : Nat} {sk : SocketInfo} {retval : Int}

theorem respond_keeps {resp : Response}
    (h : (s.send_response skinfo resp).map (fun s => ((0 : Int), s)) = some (retval, s')) : s.Keeps s' := by
  obtain ⟨s₁, hsend, heq⟩ := Option.map_eq_some_iff.mp h
  cases heq
  exact send_response_keeps hsend

/-- A response with an error status refuses the request. -/
theorem respond_refuses {resp : Response} (hretval : resp.retval ≠ PWR_RET_SUCCESS)
    (h : (s.send_response skinfo resp).map (fun s => ((0 : Int), s)) = some (retval, s')) : s.Refuses skinfo s' := by
  obtain ⟨s₁, hsend, heq⟩ := Option.map_eq_some_iff.mp h
  cases heq
  obtain ⟨sk, hsk, rfl⟩ := send_response_eq hsend
  exact ⟨rfl, _, rfl, rfl, hretval⟩

theorem Keeps.credentials_eq (h : s.Keeps s') (skinfo : Nat) : s'.credentials skinfo = s.credentials skinfo := by
  have hrecord := congrArg (Option.map fun id => (id.2.2.1, id.2.2.2)) (h.records skinfo)
  simpa [credentials, Function.comp_def, SocketInfo.identity] using hrecord

/-- Only a `PwrAUTH` changes the credentials of a connection. -/
theorem process_client_req_credentials {req : Request} (hreq : ∀ role name, req ≠ .PwrAUTH role name)
    (h : s.process_client_req pmlog client_socket (some req) = some (retval, s')) : s.KeepsCredentials s' := by
  simp only [process_client_req, socket_lookup] at h
  split at h
  · cases h
    exact .refl _
  · next skinfo hopen =>
    obtain ⟨sk, hsk, h⟩ := Option.bind_eq_some_iff.mp h
    cases req with
    | PwrAUTH role name => exact absurd rfl (hreq role name)
    | PwrSET set =>
      simp only at h
      split at h
      · exact (respond_keeps h).keeps_credentials
      · cases h
        exact ⟨fun _ _ h => h, fun _ sk' h => ⟨sk', h, rfl⟩, Nat.le_succ _⟩
    | PwrLOGLVL loglvl =>
      simp only at h
      split at h
      · exact (respond_keeps h).keeps_credentials
      · exact (respond_keeps h).keeps_credentials
    | PwrDUMP =>
      simp only at h
      split at h
      · exact (respond_keeps h).keeps_credentials
      · exact (respond_keeps h).keeps_credentials
    | OTHER ReqType => exact (respond_keeps h).keeps_credentials

/-- A set request is refused while the role is unspecified, and queued afterwards. -/
theorem process_client_req_set {set : SetReq} (hopen : s.open_sockets.lookup client_socket = some skinfo)
    (hsk : s.sockets.lookup skinfo = some sk)
    (h : s.process_client_req pmlog client_socket (some (.PwrSET set)) = some (retval, s')) :
    (sk.role = .NOT_SPECIFIED ∧ s.Refuses skinfo s') ∨ (sk.role ≠ .NOT_SPECIFIED ∧ s.Queues skinfo set s') := by
  simp only [process_client_req, socket_lookup, hopen, hsk, Option.bind_eq_bind, Option.bind_some] at h
  split at h
  · next hrole => exact Or.inl ⟨hrole, respond_refuses (by decide) h⟩
  · next hrole =>
    cases h
    exact Or.inr ⟨hrole, rfl, _, rfl, rfl, rfl⟩

/-- A request of an open connection finds the connection's record. -/
theorem process_client_req_record {req : Request} (hopen : s.open_sockets.lookup client_socket = some skinfo)
    (h : s.process_client_req pmlog client_socket (some req) = some (retval, s')) :
    ∃ sk, s.sockets.lookup skinfo = some sk := by
  simp only [process_client_req, socket_lookup, hopen] at h
  obtain ⟨sk, hsk, _⟩ := Option.bind_eq_some_iff.mp h
  exact ⟨sk, hsk⟩

/-- An authorisation is refused once the role is specified; before, it is granted
and the role and the name of the message are taken over. -/
theorem process_client_req_auth {role : PwrRole} {name : String}
    (hopen : s.open_sockets.lookup client_socket = some skinfo) (hsk : s.sockets.lookup skinfo = some sk)
    (h : s.process_client_req pmlog client_socket (some (.PwrAUTH role name)) = some (retval, s')) :
    (sk.role ≠ .NOT_SPECIFIED ∧ s.Refuses skinfo s' ∧ s.Keeps s') ∨
      (sk.role = .NOT_SPECIFIED ∧
        s' = { s with
          sockets := s.sockets.insert skinfo { sk with role, context_name := some name, seqnum := sk.seqnum + 1 }
          sent := s.sent ++ [⟨skinfo, sk.sockid, { retval := PWR_RET_SUCCESS, sequence := sk.seqnum }⟩] }) := by
  simp only [process_client_req, socket_lookup, hopen, hsk, Option.bind_eq_bind, Option.bind_some] at h
  split at h
  · next hrole => exact Or.inl ⟨hrole, respond_refuses (by decide) h, respond_keeps h⟩
  · next hrole =>
    obtain ⟨s₁, hsend, heq⟩ := Option.map_eq_some_iff.mp h
    cases heq
    obtain ⟨sk₁, hsk₁, rfl⟩ := send_response_eq hsend
    rw [Finmap.lookup_insert, Option.some.injEq] at hsk₁
    subst hsk₁
    refine Or.inr ⟨not_not.mp hrole, ?_⟩
    simp only [Finmap.insert_insert]

theorem process_client_req_set_success (pmlog : Pmlog)
    (hopen : s.open_sockets.lookup client_socket = some skinfo) (hsk : s.sockets.lookup skinfo = some sk) (set : SetReq) :
    ∃ r, s.process_client_req pmlog client_socket (some (.PwrSET set)) = some r := by
  simp only [process_client_req, socket_lookup, hopen, hsk, Option.bind_eq_bind, Option.bind_some]
  split
  · obtain ⟨s', hs'⟩ := send_response_success { retval := PWR_RET_INVALID } hsk
    exact ⟨_, by rw [hs', Option.map_some]⟩
  · exact ⟨_, rfl⟩

end Requests

end Daemon

/-- The daemon with the socket records on which a `PwrAUTH` was answered with success. -/
structure Authorised where
  state : Daemon
  granted : List Nat := []

namespace Authorised

open Daemon (Pmlog)

/-- The connections on which a step answers a `PwrAUTH` with success. -/
def grants (step : ThreadStep) (s s' : Daemon) : List Nat :=
  match step with
  | .receive _ (.PwrAUTH _ _) =>
    let answers := s'.sent.drop s.sent.length
    (answers.filter fun written => decide (written.resp.retval = PWR_RET_SUCCESS)).map Written.record
  | _ => []

/-- A step of a thread, with the granted authorisations recorded. -/
def serve (pmlog : Pmlog) (step : ThreadStep) (a : Authorised) : Option Authorised :=
  (a.state.thread_step pmlog step).map fun state => { state, granted := grants step a.state state ++ a.granted }

def ServeStep (pmlog : Pmlog) (a : Authorised) (step : ThreadStep) (a' : Authorised) : Prop :=
  a.state.ThreadPermitted step ∧ a.serve pmlog step = some a'

/-- What a request on a connection is to lead to: a set request is queued if an
authorisation was granted before and refused otherwise, and an authorisation is
refused without effect once one was granted. -/
structure Guarded (skinfo : Nat) (req : Request) (a a' : Authorised) : Prop where
  queued : ∀ set, req = .PwrSET set → (a.state.Queues skinfo set a'.state ↔ skinfo ∈ a.granted)
  refused : ∀ set, req = .PwrSET set → ¬a.state.Queues skinfo set a'.state → a.state.Refuses skinfo a'.state
  settled : ∀ role name, req = .PwrAUTH role name → skinfo ∈ a.granted →
    a.state.Refuses skinfo a'.state ∧ a'.state.credentials skinfo = a.state.credentials skinfo

/-- Every request that may be received next, on any connection, is guarded. -/
def Protected (pmlog : Pmlog) (a : Authorised) : Prop :=
  ∀ fd skinfo req a', a.state.open_sockets.lookup fd = some skinfo →
    a.serve pmlog (.receive fd req) = some a' → Guarded skinfo req a a'

/-- A connection whose role is unspecified is not authorised for that role. -/
def NamesRole (s : Daemon) : ThreadStep → Prop
  | .receive fd (.PwrAUTH role _) => role = .NOT_SPECIFIED →
    ∀ skinfo ∈ s.open_sockets.lookup fd, ∀ sk ∈ s.sockets.lookup skinfo, sk.role ≠ .NOT_SPECIFIED
  | _ => True

instance (s : Daemon) (step : ThreadStep) : Decidable (NamesRole s step) :=
  match step with
  | .accept _ _ => .isTrue trivial
  | .receive fd (.PwrAUTH role _) => inferInstanceAs (Decidable (role = .NOT_SPECIFIED →
      ∀ skinfo ∈ s.open_sockets.lookup fd, ∀ sk ∈ s.sockets.lookup skinfo, sk.role ≠ .NOT_SPECIFIED))
  | .receive _ (.PwrSET _) => .isTrue trivial
  | .receive _ (.PwrLOGLVL _) => .isTrue trivial
  | .receive _ .PwrDUMP => .isTrue trivial
  | .receive _ (.OTHER _) => .isTrue trivial
  | .close _ _ _ => .isTrue trivial
  | .work _ _ => .isTrue trivial

/-- A connection with a role was granted it, and addresses of new records are unknown. -/
structure Recorded (a : Authorised) : Prop where
  known : ∀ skinfo sk, a.state.sockets.lookup skinfo = some sk → skinfo < a.state.next_addr
  fresh : ∀ skinfo ∈ a.granted, skinfo < a.state.next_addr
  specified : ∀ skinfo sk, a.state.sockets.lookup skinfo = some sk → sk.role ≠ .NOT_SPECIFIED → skinfo ∈ a.granted

/-- An open connection that was granted an authorisation has a role. -/
def Roled (a : Authorised) : Prop :=
  ∀ fd skinfo sk, a.state.open_sockets.lookup fd = some skinfo → a.state.sockets.lookup skinfo = some sk →
    skinfo ∈ a.granted → sk.role ≠ .NOT_SPECIFIED

section Steps

variable {pmlog : Pmlog} {a a' : Authorised} {step : ThreadStep} {state : Daemon}

theorem serve_eq (h : a.serve pmlog step = some a') :
    a.state.thread_step pmlog step = some a'.state ∧ a'.granted = grants step a.state a'.state ++ a.granted := by
  obtain ⟨state, hstep, rfl⟩ := Option.map_eq_some_iff.mp h
  exact ⟨hstep, rfl⟩

theorem receive_eq {fd : Int} {req : Request} (h : a.state.thread_step pmlog (.receive fd req) = some state) :
    ∃ retval, a.state.process_client_req pmlog fd (some req) = some (retval, state) := by
  obtain ⟨⟨retval, s⟩, hreq, rfl⟩ := Option.map_eq_some_iff.mp h
  exact ⟨retval, hreq⟩

/-- Where the roles are recorded, requests are guarded exactly when granted connections have roles. -/
theorem protected_iff (pmlog : Pmlog) (hrecorded : a.Recorded) : a.Protected pmlog ↔ a.Roled := by
  constructor
  · intro hprotected fd skinfo sk hopen hsk hgranted hrole
    let set : SetReq := ⟨0, .FREQ_REQ, .UINT64, 0, ⟨0⟩, ""⟩
    obtain ⟨⟨retval, state⟩, hreq⟩ := Daemon.process_client_req_set_success pmlog hopen hsk set
    have hserve : a.serve pmlog (.receive fd (.PwrSET set)) = some { state, granted := a.granted } := by
      rw [serve, Daemon.thread_step, hreq]
      rfl
    have hqueues := ((hprotected fd skinfo (.PwrSET set) _ hopen hserve).queued set rfl).mpr hgranted
    obtain ⟨_, _, written, hsent, _⟩ | ⟨hspecified, _⟩ := Daemon.process_client_req_set hopen hsk hreq
    · have hlength := congrArg List.length (hqueues.1.symm.trans hsent)
      simp at hlength
    · exact hspecified hrole
  · intro hroled fd skinfo req a' hopen hserve
    obtain ⟨hstep, _⟩ := serve_eq hserve
    obtain ⟨retval, hreq⟩ := receive_eq hstep
    obtain ⟨sk, hsk⟩ := Daemon.process_client_req_record hopen hreq
    have hgranted : skinfo ∈ a.granted ↔ sk.role ≠ .NOT_SPECIFIED :=
      ⟨hroled fd skinfo sk hopen hsk, hrecorded.specified skinfo sk hsk⟩
    refine ⟨?_, ?_, ?_⟩
    · rintro set rfl
      obtain ⟨hrole, _, written, hsent, _⟩ | ⟨hrole, hqueues⟩ := Daemon.process_client_req_set hopen hsk hreq
      · refine iff_of_false ?_ (by simp [hgranted, hrole])
        rintro ⟨hsame, _⟩
        have hlength := congrArg List.length (hsame.symm.trans hsent)
        simp at hlength
      · exact iff_of_true hqueues (hgranted.mpr hrole)
    · rintro set rfl hnot
      obtain ⟨_, hrefuses⟩ | ⟨_, hqueues⟩ := Daemon.process_client_req_set hopen hsk hreq
      · exact hrefuses
      · exact absurd hqueues hnot
    · rintro role name rfl hin
      obtain ⟨_, hrefuses, hkeeps⟩ | ⟨hrole, _⟩ := Daemon.process_client_req_auth hopen hsk hreq
      · exact ⟨hrefuses, hkeeps.credentials_eq skinfo⟩
      · exact absurd hrole (hgranted.mp hin)

/-- A step that keeps the credentials and grants nothing keeps what is recorded. -/
theorem Recorded.quiet (h : a.Recorded) (hkeeps : a.state.KeepsCredentials state) :
    ({ a with state } : Authorised).Recorded ∧ (a.Roled → ({ a with state } : Authorised).Roled) := by
  refine ⟨⟨?_, ?_, ?_⟩, ?_⟩
  · intro skinfo sk' hsk'
    obtain ⟨sk, hsk, _⟩ := hkeeps.records skinfo sk' hsk'
    exact (h.known skinfo sk hsk).trans_le hkeeps.next_addr
  · exact fun skinfo hin => (h.fresh skinfo hin).trans_le hkeeps.next_addr
  · intro skinfo sk' hsk' hrole
    obtain ⟨sk, hsk, heq⟩ := hkeeps.records skinfo sk' hsk'
    exact h.specified skinfo sk hsk (heq ▸ hrole)
  · intro hroled fd skinfo sk' hopen hsk' hin
    obtain ⟨sk, hsk, heq⟩ := hkeeps.records skinfo sk' hsk'
    rw [heq]
    exact hroled fd skinfo sk (hkeeps.opened fd skinfo hopen) hsk hin

theorem grants_refused {skinfo : Nat} (h : a.state.Refuses skinfo state) : grants step a.state state = [] := by
  obtain ⟨_, written, hsent, _, hretval⟩ := h
  unfold grants
  split
  · simp [hsent, hretval]
  · rfl

theorem grants_silent (hsent : state.sent = a.state.sent) : grants step a.state state = [] := by
  unfold grants
  split
  · simp [hsent]
  · rfl

/-- Accepting a client enters a record without a role at a new address. -/
theorem Recorded.accept (h : a.Recorded) (fd : Int) (cred : Ucred) :
    ({ a with state := a.state.socket_construct fd cred } : Authorised).Recorded ∧
      (a.Roled → ({ a with state := a.state.socket_construct fd cred } : Authorised).Roled) := by
  have hlookup : ∀ skinfo sk, (a.state.socket_construct fd cred).sockets.lookup skinfo = some sk →
      (skinfo = a.state.next_addr ∧ sk.role = .NOT_SPECIFIED) ∨
        (skinfo ≠ a.state.next_addr ∧ a.state.sockets.lookup skinfo = some sk) := by
    intro skinfo sk hsk
    rw [Daemon.socket_construct, HashTable.lookup_insert_eq_ite] at hsk
    split at hsk
    · next hnew =>
      cases hsk
      exact Or.inl ⟨hnew, rfl⟩
    · next hold => exact Or.inr ⟨hold, hsk⟩
  refine ⟨⟨?_, ?_, ?_⟩, ?_⟩
  · intro skinfo sk hsk
    obtain ⟨rfl, _⟩ | ⟨_, hsk⟩ := hlookup skinfo sk hsk
    · exact Nat.lt_succ_self _
    · exact Nat.lt_succ_of_lt (h.known skinfo sk hsk)
  · exact fun skinfo hin => Nat.lt_succ_of_lt (h.fresh skinfo hin)
  · intro skinfo sk hsk hrole
    obtain ⟨_, hnone⟩ | ⟨_, hsk⟩ := hlookup skinfo sk hsk
    · exact absurd hnone hrole
    · exact h.specified skinfo sk hsk hrole
  · intro hroled fd' skinfo sk hopen hsk hin
    obtain ⟨rfl, _⟩ | ⟨hne, hsk⟩ := hlookup skinfo sk hsk
    · exact absurd (h.fresh _ hin) (Nat.lt_irrefl _)
    · refine hroled fd' skinfo sk ?_ hsk hin
      change (a.state.open_sockets.insert fd a.state.next_addr).lookup fd' = some skinfo at hopen
      rw [HashTable.lookup_insert_eq_ite] at hopen
      split at hopen
      · cases hopen
        exact absurd rfl hne
      · exact hopen

/-- Granting an authorisation enters the role of the message, which may be the unspecified one. -/
theorem Recorded.grant (h : a.Recorded) {fd : Int} {skinfo : Nat} {sk : SocketInfo} (sk' : SocketInfo)
    (sent : List Written)
    (hopen : a.state.open_sockets.lookup fd = some skinfo) (hsk : a.state.sockets.lookup skinfo = some sk) :
    let a' : Authorised :=
      ⟨{ a.state with sockets := a.state.sockets.insert skinfo sk', sent }, skinfo :: a.granted⟩
    a'.Recorded ∧ (a.Roled → (a'.Roled ↔ sk'.role ≠ .NOT_SPECIFIED)) := by
  intro a'
  have hlookup : ∀ skinfo' sk₁, a'.state.sockets.lookup skinfo' = some sk₁ →
      (skinfo' = skinfo ∧ sk₁ = sk') ∨ (skinfo' ≠ skinfo ∧ a.state.sockets.lookup skinfo' = some sk₁) := by
    intro skinfo' sk₁ hsk₁
    change (a.state.sockets.insert skinfo sk').lookup skinfo' = some sk₁ at hsk₁
    rw [HashTable.lookup_insert_eq_ite] at hsk₁
    split at hsk₁
    · next heq =>
      cases hsk₁
      exact Or.inl ⟨heq, rfl⟩
    · next hne => exact Or.inr ⟨hne, hsk₁⟩
  refine ⟨⟨?_, ?_, ?_⟩, fun hroled => ⟨fun hroled' => ?_, fun hrole => ?_⟩⟩
  · intro skinfo' sk₁ hsk₁
    obtain ⟨rfl, _⟩ | ⟨_, hold⟩ := hlookup skinfo' sk₁ hsk₁
    · exact h.known _ sk hsk
    · exact h.known skinfo' sk₁ hold
  · intro skinfo' hin
    obtain rfl | hin := List.mem_cons.mp hin
    · exact h.known _ sk hsk
    · exact h.fresh skinfo' hin
  · intro skinfo' sk₁ hsk₁ hrole
    obtain ⟨rfl, _⟩ | ⟨_, hold⟩ := hlookup skinfo' sk₁ hsk₁
    · exact List.mem_cons_self
    · exact List.mem_cons_of_mem _ (h.specified skinfo' sk₁ hold hrole)
  · exact hroled' fd skinfo sk' hopen (Finmap.lookup_insert _) List.mem_cons_self
  · intro fd' skinfo' sk₁ hopen' hsk₁ hin
    obtain ⟨_, rfl⟩ | ⟨hne, hold⟩ := hlookup skinfo' sk₁ hsk₁
    · exact hrole
    · obtain rfl | hin := List.mem_cons.mp hin
      · exact absurd rfl hne
      · exact hroled fd' skinfo' sk₁ hopen' hold hin

/-- Every step keeps what is recorded, and keeps granted connections with a role
exactly when it does not authorise one for the unspecified role. -/
theorem serve_recorded (h : a.Recorded) (hserve : a.serve pmlog step = some a') :
    a'.Recorded ∧ (a.Roled → (a'.Roled ↔ NamesRole a.state step)) := by
  obtain ⟨hstep, hgranted⟩ := serve_eq hserve
  have quiet : grants step a.state a'.state = [] → NamesRole a.state step → a.state.KeepsCredentials a'.state →
      a'.Recorded ∧ (a.Roled → (a'.Roled ↔ NamesRole a.state step)) := by
    intro hnone hnames hkeeps
    obtain ⟨hrecorded, hroled⟩ := h.quiet hkeeps
    have heq : { a with state := a'.state } = a' := by
      rw [hnone, List.nil_append] at hgranted
      rw [← hgranted]
    rw [heq] at hrecorded hroled
    exact ⟨hrecorded, fun h => iff_of_true (hroled h) hnames⟩
  cases step with
  | accept fd cred =>
    obtain ⟨state, granted⟩ := a'
    cases hstep
    cases hgranted
    obtain ⟨hrecorded, hroled⟩ := h.accept fd cred
    exact ⟨hrecorded, fun h => iff_of_true (hroled h) trivial⟩
  | close fd io order => exact quiet rfl trivial (Daemon.socket_destruct_credentials hstep)
  | work io now => exact quiet rfl trivial (Daemon.worker_process_items_credentials hstep)
  | receive fd req =>
    obtain ⟨retval, hreq⟩ := receive_eq hstep
    cases req with
    | PwrSET set => exact quiet rfl trivial (Daemon.process_client_req_credentials (by simp) hreq)
    | PwrLOGLVL loglvl => exact quiet rfl trivial (Daemon.process_client_req_credentials (by simp) hreq)
    | PwrDUMP => exact quiet rfl trivial (Daemon.process_client_req_credentials (by simp) hreq)
    | OTHER ReqType => exact quiet rfl trivial (Daemon.process_client_req_credentials (by simp) hreq)
    | PwrAUTH role name =>
      cases hopen : a.state.open_sockets.lookup fd with
      | none =>
        simp only [Daemon.process_client_req, Daemon.socket_lookup, hopen, Option.some.injEq, Prod.mk.injEq] at hreq
        obtain ⟨_, hsame⟩ := hreq
        refine quiet (grants_silent (by rw [hsame])) ?_ (hsame ▸ .refl _)
        intro _ skinfo hin
        rw [hopen] at hin
        cases hin
      | some skinfo =>
        obtain ⟨sk, hsk⟩ := Daemon.process_client_req_record hopen hreq
        have hnames : NamesRole a.state (.receive fd (.PwrAUTH role name)) ↔
            (role = .NOT_SPECIFIED → sk.role ≠ .NOT_SPECIFIED) := by
          simp [NamesRole, hopen, hsk]
        obtain ⟨hrole, hrefuses, hkeeps⟩ | ⟨hrole, hstate⟩ := Daemon.process_client_req_auth hopen hsk hreq
        · exact quiet (grants_refused hrefuses) (hnames.mpr fun _ => hrole) hkeeps.keeps_credentials
        · have hnew : grants (.receive fd (.PwrAUTH role name)) a.state a'.state = [skinfo] := by
            simp [grants, hstate]
          obtain ⟨hrecorded, hroled⟩ := h.grant { sk with role, context_name := some name, seqnum := sk.seqnum + 1 }
            (a.state.sent ++ [⟨skinfo, sk.sockid, { retval := PWR_RET_SUCCESS, sequence := sk.seqnum }⟩]) hopen hsk
          rw [hnew] at hgranted
          obtain ⟨state, granted⟩ := a'
          cases hstate
          cases hgranted
          rw [hnames]
          refine ⟨hrecorded, fun h => (hroled h).trans ?_⟩
          simp [hrole]

end Steps

section Runs

/-- The account of a daemon that has just started. -/
def begin_unauthorised (files : String → ControlFile) : Authorised := { state := Daemon.start files }

/-- In every run of the two threads, the requests received on each connection are
guarded by its authorisation throughout exactly when no connection is authorised for
the unspecified role. -/
theorem requests_guarded_iff (pmlog : Pmlog) (files : String → ControlFile) (run : List (ThreadStep × Authorised))
    (hrun : EachStep (ServeStep pmlog) (begin_unauthorised files) run) :
    (∀ x ∈ run, x.2.Protected pmlog) ↔
      EachStep (fun a step _ => NamesRole a.state step) (begin_unauthorised files) run := by
  have hrecorded : (begin_unauthorised files).Recorded := by
    refine ⟨?_, ?_, ?_⟩
    · simp [begin_unauthorised, Daemon.start]
    · simp [begin_unauthorised]
    · simp [begin_unauthorised, Daemon.start]
  have hprotected : (begin_unauthorised files).Protected pmlog := by
    refine (protected_iff pmlog hrecorded).mpr ?_
    simp [Roled, begin_unauthorised, Daemon.start]
  refine hrun.forall_iff (I := Recorded) hrecorded hprotected ?_ ?_
  · rintro a step a' ⟨_, hserve⟩ h
    exact (serve_recorded h hserve).1
  · rintro a step a' ⟨_, hserve⟩ h hprotected
    obtain ⟨hrecorded', hiff⟩ := serve_recorded h hserve
    rw [protected_iff pmlog hrecorded']
    exact hiff ((protected_iff pmlog h).mp hprotected)

/-- A client that asks for a role and then for a frequency. -/
def asks_for (role : PwrRole) : List ThreadStep :=
  let request : SetReq := ⟨0, .FREQ_REQ, .UINT64, 0, ⟨5⟩, "scaling_setspeed"⟩
  [.accept 4 ⟨1000⟩, .receive 4 (.PwrSET request), .receive 4 (.PwrAUTH role "app"), .receive 4 (.PwrSET request),
    .receive 4 (.PwrAUTH .RM "other")]

/-- The run that takes the given steps. -/
def served (steps : List ThreadStep) : List (ThreadStep × Authorised) :=
  run_of (serve some) steps (begin_unauthorised fun _ => .uint64 10)

theorem served_steps {steps : List ThreadStep}
    (h : EachStep (fun a step _ => a.state.ThreadPermitted step) (begin_unauthorised fun _ => .uint64 10) (served steps)) :
    EachStep (ServeStep some) (begin_unauthorised fun _ => .uint64 10) (served steps) :=
  (h.and (eachStep_run_of _ _ _)).imp fun _ _ _ h => h

theorem requests_guarded_iff_app :
    (served (asks_for .APP)).length = 5 ∧ ((∀ x ∈ served (asks_for .APP), x.2.Protected some) ↔
      EachStep (fun a step _ => NamesRole a.state step) (begin_unauthorised fun _ => .uint64 10)
        (served (asks_for .APP))) :=
  ⟨by decide, requests_guarded_iff some _ _ (served_steps (by decide))⟩

/-- A client that is authorised for the unspecified role is answered with success,
and then its set request is refused. -/
theorem authorised_and_refused :
    ¬∀ pmlog files run, EachStep (ServeStep pmlog) (begin_unauthorised files) run →
      ∀ x ∈ run, x.2.Protected pmlog := by
  intro hall
  let steps : List ThreadStep := [.accept 4 ⟨1000⟩, .receive 4 (.PwrAUTH .NOT_SPECIFIED "app")]
  have hprotected := hall some _ (served steps) (served_steps (by decide)) _
    (List.get_mem (served steps) ⟨1, by decide⟩)
  have hguarded := hprotected 4 0 (.PwrSET ⟨0, .FREQ_REQ, .UINT64, 0, ⟨5⟩, "scaling_setspeed"⟩) _ rfl rfl
  have hqueues := (hguarded.queued _ rfl).mpr (by decide)
  exact absurd (congrArg List.length hqueues.1) (by decide)

end Runs

end Authorised

end pwrapi.daemon
