import PowerApi.Types

namespace pwrapi

abbrev PATH_MAX : Nat := 4096

abbrev PWR_MAX_STRING_LEN : Nat := 63

abbrev POWERAPID_SOCKET_PATH : String := "/var/opt/cray/powerapi/run/powerapid.sock"

/-- `sizeof(powerapi_request_t)`: the type and padding, then the largest member of the union. -/
abbrev sizeof_request : Nat := 8 + (4 * 4 + 8 + PATH_MAX)

/-- `sizeof(powerapi_response_t)`. -/
abbrev sizeof_response : Nat := 8 + 8 + 2 * 4

namespace ipc

/-- The system calls that the plugin makes, over a state of the system. `write`
and `read` return the number of bytes, or a negative number for an error. -/
structure System (σ : Type) where
  socket : σ → Int × σ
  connect : Int → String → σ → Int × σ
  write : Int → Request → σ → Int × σ
  read : Int → σ → (Int × Response) × σ
  close : Int → σ → σ

/-- `ipc_t`, with the state of the system that the plugin calls. `plugin_data`
holds the member `fd` of the plugin's own structure, or is `none` for NULL. -/
structure Ipc (σ : Type) where
  context_name : String
  context_role : PwrRole
  plugin_data : Option Int
  os : σ

/-- A call through the operations of the plugin. -/
inductive Call where
  | set_uint64 (obj_type : Int) (attr_name : PwrAttrName) (meta_name : Int) (value : UInt64) (path : String)
  | set_double (obj_type : Int) (attr_name : PwrAttrName) (meta_name : Int) (value : Binary64) (path : String)
  | destruct
  deriving DecidableEq

/-- The request that a set call sends, unless its path is too long. -/
def sent_request : Call → Option Request
  | .set_uint64 obj_type attr_name meta_name value path =>
    if path.utf8ByteSize ≥ PATH_MAX then none
    else some (.PwrSET ⟨obj_type, attr_name, .UINT64, meta_name, ⟨value⟩, path⟩)
  | .set_double obj_type attr_name meta_name value path =>
    if path.utf8ByteSize ≥ PATH_MAX then none
    else some (.PwrSET ⟨obj_type, attr_name, .DOUBLE, meta_name, ⟨value.bits⟩, path⟩)
  | .destruct => none

section Plugin

variable {σ : Type}

def ipc_socket_construct (context_name : String) (context_role : PwrRole) (os : σ) : Ipc σ :=
  { context_name, context_role, plugin_data := some (-1), os }

/-- Send a request and receive its response. -/
def ipc_socket_req (sys : System σ) (req : Request) (ipc : Ipc σ) : Option (Int × Ipc σ) := do
  let fd ← ipc.plugin_data
  let (bytes, os) := sys.write fd req ipc.os
  if bytes ≠ sizeof_request then some (PWR_RET_FAILURE, { ipc with os })
  else
    let ((bytes, resp), os) := sys.read fd os
    if bytes ≠ sizeof_response then some (PWR_RET_FAILURE, { ipc with os })
    else some (resp.retval, { ipc with os })

def ipc_socket_auth (sys : System σ) (ipc : Ipc σ) : Option (Int × Ipc σ) :=
  if ipc.context_name.utf8ByteSize ≥ PWR_MAX_STRING_LEN + 1 then some (PWR_RET_FAILURE, ipc)
  else ipc_socket_req sys (.PwrAUTH ipc.context_role ipc.context_name) ipc

/-- Where `ipc_socket_connect` returns: a socket that was opened is closed again on a failure. -/
def connect_return (sys : System σ) (fd : Int) (status : Int) (ipc : Ipc σ) : Int × Ipc σ :=
  if status ≠ PWR_RET_SUCCESS then
    if fd ≥ 0 then (status, { ipc with os := sys.close fd ipc.os }) else (status, ipc)
  else (status, ipc)

def ipc_socket_connect (sys : System σ) (ipc : Ipc σ) : Option (Int × Ipc σ) := do
  let fd ← ipc.plugin_data
  -- a valid descriptor is taken for one that has already been connected
  if fd ≥ 0 then some (PWR_RET_SUCCESS, ipc)
  else
    let (fd, os) := sys.socket ipc.os
    if fd < 0 then some (connect_return sys fd PWR_RET_FAILURE { ipc with os })
    else if POWERAPID_SOCKET_PATH.utf8ByteSize ≥ 108 then some (connect_return sys fd PWR_RET_FAILURE { ipc with os })
    else
      let (result, os) := sys.connect fd POWERAPID_SOCKET_PATH os
      if result < 0 then some (connect_return sys fd PWR_RET_FAILURE { ipc with os })
      else
        let (status, ipc) ← ipc_socket_auth sys { ipc with plugin_data := some fd, os }
        some (connect_return sys fd status ipc)

def ipc_socket_set (sys : System σ) (obj_type : Int) (attr_name : PwrAttrName) (meta_name : Int)
    (attr_type : PwrAttrDataType) (value : TypeUnion) (path : String) (ipc : Ipc σ) : Option (Int × Ipc σ) := do
  let (status, ipc) ← ipc_socket_connect sys ipc
  if status ≠ PWR_RET_SUCCESS then some (status, ipc)
  else
    match attr_type with
    | .DOUBLE | .UINT64 =>
      if path.utf8ByteSize ≥ PATH_MAX then some (PWR_RET_FAILURE, ipc)
      else ipc_socket_req sys (.PwrSET ⟨obj_type, attr_name, attr_type, meta_name, value, path⟩) ipc
    | _ => some (PWR_RET_INVALID, ipc)

def ipc_socket_set_uint64 (sys : System σ) (obj_type : Int) (attr_name : PwrAttrName) (meta_name : Int)
    (value : UInt64) (path : String) (ipc : Ipc σ) : Option (Int × Ipc σ) :=
  ipc_socket_set sys obj_type attr_name meta_name .UINT64 ⟨value⟩ path ipc

def ipc_socket_set_double (sys : System σ) (obj_type : Int) (attr_name : PwrAttrName) (meta_name : Int)
    (value : Binary64) (path : String) (ipc : Ipc σ) : Option (Int × Ipc σ) :=
  ipc_socket_set sys obj_type attr_name meta_name .DOUBLE ⟨value.bits⟩ path ipc

def ipc_socket_destruct (sys : System σ) (ipc : Ipc σ) : Int × Ipc σ :=
  match ipc.plugin_data with
  | none => (PWR_RET_FAILURE, ipc)
  | some fd =>
    let ipc := { ipc with plugin_data := none }
    (PWR_RET_SUCCESS, if fd ≥ 0 then { ipc with os := sys.close fd ipc.os } else ipc)

/-- The status of a call and the plugin afterwards; `none` when the call would
go through the operations of a plugin that has been destroyed. -/
def perform (sys : System σ) (call : Call) (ipc : Ipc σ) : Option (Int × Ipc σ) :=
  match call with
  | .set_uint64 obj_type attr_name meta_name value path =>
    ipc_socket_set_uint64 sys obj_type attr_name meta_name value path ipc
  | .set_double obj_type attr_name meta_name value path =>
    ipc_socket_set_double sys obj_type attr_name meta_name value path ipc
  | .destruct => ipc.plugin_data.map fun _ => ipc_socket_destruct sys ipc

/-- On a descriptor that is there, a set call sends its request and nothing else. -/
theorem perform_connected (sys : System σ) {call : Call} {ipc : Ipc σ} {fd : Int} (hfd : ipc.plugin_data = some fd)
    (hopen : 0 ≤ fd) (hset : call ≠ .destruct) :
    perform sys call ipc =
      match sent_request call with
      | none => some (PWR_RET_FAILURE, ipc)
      | some req => ipc_socket_req sys req ipc := by
  have hconnect : ipc_socket_connect sys ipc = some (PWR_RET_SUCCESS, ipc) := by
    simp only [ipc_socket_connect, hfd, Option.bind_eq_bind, Option.bind_some, ge_iff_le, hopen, if_true]
  cases call with
  | set_uint64 obj_type attr_name meta_name value path =>
    simp only [perform, ipc_socket_set_uint64, ipc_socket_set, hconnect, sent_request, Option.bind_eq_bind,
      Option.bind_some, ne_eq, not_true, if_false]
    split <;> rfl
  | set_double obj_type attr_name meta_name value path =>
    simp only [perform, ipc_socket_set_double, ipc_socket_set, hconnect, sent_request, Option.bind_eq_bind,
      Option.bind_some, ne_eq, not_true, if_false]
    split <;> rfl
  | destruct => exact absurd rfl hset

end Plugin

end ipc

end pwrapi
