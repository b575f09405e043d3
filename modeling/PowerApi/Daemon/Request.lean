import PowerApi.Daemon.Worker

namespace pwrapi.daemon

namespace Daemon

/-- What the logging library makes of a request to set the stderr levels: the
levels reported afterwards, or `none` when setting or reading them fails. -/
abbrev Pmlog := LogLevels → Option LogLevels

/-- Serve one request of a client: the return code and the state afterwards.
`req` is `none` when no whole request could be read. -/
def process_client_req (pmlog : Pmlog) (client_socket : Int) (req : Option Request) (s : Daemon) :
    Option (Int × Daemon) :=
  match req with
  | none => some (1, s)
  | some req =>
    match s.socket_lookup client_socket with
    | none => some (1, s)
    | some skinfo => do
      let sk ← s.sockets.lookup skinfo
      let respond (resp : Response) (s : Daemon) : Option (Int × Daemon) :=
        (s.send_response skinfo resp).map fun s => (0, s)
      match req with
      | .PwrAUTH role context_name =>
        if sk.role ≠ .NOT_SPECIFIED then respond { retval := PWR_RET_INVALID } s
        else
          let sk := { sk with role, context_name := some context_name }
          respond { retval := PWR_RET_SUCCESS } { s with sockets := s.sockets.insert skinfo sk }
      | .PwrSET set =>
        if sk.role = .NOT_SPECIFIED then respond { retval := PWR_RET_INVALID } s
        else
          let (setp, s) := s.set_create_item set (some skinfo)
          -- the worker sends the response when it has processed the request
          some (0, { s with work_queue := s.work_queue ++ [setp] })
      | .PwrLOGLVL loglvl =>
        match pmlog loglvl with
        | none => respond { retval := PWR_RET_INVALID } s
        | some loglvl => respond { retval := PWR_RET_SUCCESS, loglvl } s
      | .PwrDUMP =>
        if sk.cred.uid ≠ 0 then respond { retval := PWR_RET_OP_NO_PERM } s
        else respond { retval := PWR_RET_SUCCESS } s
      | .OTHER _ => respond { retval := PWR_RET_INVALID } s

end Daemon

end pwrapi.daemon
