import PowerApi.Daemon.Request
import PowerApi.Daemon.Store

namespace pwrapi.daemon.Daemon

/-- What serving a request can do: the socket is not known, the request is
answered at once, or a set request is queued for the worker. -/
inductive RequestStep (client_socket : Int) (req : Request) (s : Daemon) : Int → Daemon → Prop where
  | unknown (hopen : s.open_sockets.lookup client_socket = none) : RequestStep client_socket req s 1 s
  | answered (skinfo : Nat) (sk sk' : SocketInfo) (resp : Response)
      (hopen : s.open_sockets.lookup client_socket = some skinfo)
      (hsk : s.sockets.lookup skinfo = some sk) (hsockid : sk'.sockid = sk.sockid) (hcred : sk'.cred = sk.cred)
      (hchanges : sk'.my_changes = sk.my_changes) (hseqnum : sk'.seqnum = sk.seqnum + 1)
      (hresp : resp.sequence = sk.seqnum) (hrefused : ∀ set, req = .PwrSET set → sk.role = .NOT_SPECIFIED) :
      RequestStep client_socket req s 0 { s with
        sockets := s.sockets.insert skinfo sk'
        sent := s.sent ++ [{ record := skinfo, fd := sk.sockid, resp }] }
  | queued (skinfo : Nat) (sk : SocketInfo) (set : SetReq) (hreq : req = .PwrSET set)
      (hopen : s.open_sockets.lookup client_socket = some skinfo)
      (hsk : s.sockets.lookup skinfo = some sk) (hrole : sk.role ≠ .NOT_SPECIFIED) :
      RequestStep client_socket req s 0 { s with
        next_addr := s.next_addr + 1
        work_queue := s.work_queue ++ [{ addr := s.next_addr, setreq := set, skinfo := some skinfo }] }

variable {pmlog : Pmlog} {client_socket : Int} {req : Request} {s s' : Daemon} {retval : Int}

/-- Answering at once, after a change of the role and context name at most. -/
theorem RequestStep.of_respond {skinfo : Nat} {sk : SocketInfo} (sk₁ : SocketInfo) {resp : Response}
    (hopen : s.open_sockets.lookup client_socket = some skinfo) (hsk : s.sockets.lookup skinfo = some sk)
    (hsockid : sk₁.sockid = sk.sockid) (hcred : sk₁.cred = sk.cred) (hchanges : sk₁.my_changes = sk.my_changes)
    (hseqnum : sk₁.seqnum = sk.seqnum) (hrefused : ∀ set, req = .PwrSET set → sk.role = .NOT_SPECIFIED)
    (h : (({ s with sockets := s.sockets.insert skinfo sk₁ } : Daemon).send_response skinfo resp).map
      (fun s => ((0 : Int), s)) = some (retval, s')) : RequestStep client_socket req s retval s' := by
  obtain ⟨s₁, hsend, heq⟩ := Option.map_eq_some_iff.mp h
  cases heq
  obtain ⟨sk₂, hsk₂, rfl⟩ := send_response_eq hsend
  rw [Finmap.lookup_insert] at hsk₂
  cases hsk₂
  have hstep : RequestStep client_socket req s 0 _ := .answered skinfo sk { sk₁ with seqnum := sk₁.seqnum + 1 }
    { resp with sequence := sk₁.seqnum } hopen hsk hsockid hcred hchanges (by rw [hseqnum]) hseqnum hrefused
  simpa only [Finmap.insert_insert, hsockid] using hstep

theorem process_client_req_step (h : s.process_client_req pmlog client_socket (some req) = some (retval, s')) :
    RequestStep client_socket req s retval s' := by
  simp only [process_client_req, socket_lookup] at h
  cases hopen : s.open_sockets.lookup client_socket with
  | none =>
    simp only [hopen, Option.some.injEq, Prod.mk.injEq] at h
    obtain ⟨rfl, rfl⟩ := h
    exact .unknown hopen
  | some skinfo =>
    cases hsk : s.sockets.lookup skinfo with
    | none => simp [hopen, hsk] at h
    | some sk =>
      simp only [hopen, hsk, Option.bind_eq_bind, Option.bind_some] at h
      have hsame : ({ s with sockets := s.sockets.insert skinfo sk } : Daemon) = s := by
        have hsockets : s.sockets.insert skinfo sk = s.sockets := by
          rw [← HashTable.insert_erase_of_lookup hsk, Finmap.insert_insert]
        rw [hsockets]
      have respond : ∀ resp : Response,
          (s.send_response skinfo resp).map (fun s => ((0 : Int), s)) = some (retval, s') →
          (∀ set, req = .PwrSET set → sk.role = .NOT_SPECIFIED) → RequestStep client_socket req s retval s' :=
        fun resp hresp hrefused => .of_respond sk hopen hsk rfl rfl rfl rfl hrefused (hsame.symm ▸ hresp)
      cases req with
      | PwrAUTH role context_name =>
        simp only at h
        split at h
        · exact respond _ h (by simp)
        · exact .of_respond { sk with role, context_name := some context_name } hopen hsk rfl rfl rfl rfl (by simp) h
      | PwrSET set =>
        simp only at h
        split at h
        · next hrole => exact respond _ h fun _ _ => hrole
        · next hrole =>
          simp only [set_create_item, Option.some.injEq, Prod.mk.injEq] at h
          obtain ⟨rfl, rfl⟩ := h
          exact .queued skinfo sk set rfl hopen hsk hrole
      | PwrLOGLVL loglvl =>
        simp only at h
        split at h
        · exact respond _ h (by simp)
        · exact respond _ h (by simp)
      | PwrDUMP =>
        simp only at h
        split at h
        · exact respond _ h (by simp)
        · exact respond _ h (by simp)
      | OTHER ReqType => exact respond _ h (by simp)

/-- A request is served without dereferencing a record that is not allocated. -/
theorem process_client_req_success (pmlog : Pmlog) (client_socket : Int) (req : Request) (hlinked : s.Linked) :
    ∃ r, s.process_client_req pmlog client_socket (some req) = some r := by
  simp only [process_client_req, socket_lookup]
  cases hopen : s.open_sockets.lookup client_socket with
  | none => exact ⟨_, rfl⟩
  | some skinfo =>
    obtain ⟨sk, hsk, _⟩ := (hlinked.open_iff client_socket skinfo).mp hopen
    simp only [hsk, Option.bind_eq_bind, Option.bind_some]
    have respond : ∀ (s₁ : Daemon) (sk₁ : SocketInfo) (resp : Response), s₁.sockets.lookup skinfo = some sk₁ →
        ∃ r, (s₁.send_response skinfo resp).map (fun s => ((0 : Int), s)) = some r := by
      intro s₁ sk₁ resp hsk₁
      obtain ⟨s₂, hs₂⟩ := send_response_success resp hsk₁
      exact ⟨(0, s₂), by rw [hs₂, Option.map_some]⟩
    cases req with
    | PwrAUTH role context_name =>
      simp only
      split
      · exact respond s sk _ hsk
      · exact respond _ _ _ (Finmap.lookup_insert _)
    | PwrSET set =>
      simp only
      split
      · exact respond s sk _ hsk
      · exact ⟨_, rfl⟩
    | PwrLOGLVL loglvl =>
      simp only
      split
      · exact respond s sk _ hsk
      · exact respond s sk _ hsk
    | PwrDUMP =>
      simp only
      split
      · exact respond s sk _ hsk
      · exact respond s sk _ hsk
    | OTHER ReqType => exact respond s sk _ hsk

end pwrapi.daemon.Daemon
