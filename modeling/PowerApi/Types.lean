import PowerApi.Lib.Binary64

namespace pwrapi

abbrev PWR_RET_WARN_TRUNC : Int := 5
abbrev PWR_RET_WARN_NO_GRP_BY_NAME : Int := 4
abbrev PWR_RET_WARN_NO_CHILDREN : Int := 2
abbrev PWR_RET_WARN_NO_PARENT : Int := 1
abbrev PWR_RET_SUCCESS : Int := 0
abbrev PWR_RET_FAILURE : Int := -1
abbrev PWR_RET_NOT_IMPLEMENTED : Int := -2
abbrev PWR_RET_INVALID : Int := -4
abbrev PWR_RET_NO_ATTRIB : Int := -6
abbrev PWR_RET_NO_META : Int := -7
abbrev PWR_RET_READ_ONLY : Int := -8
abbrev PWR_RET_BAD_VALUE : Int := -9
abbrev PWR_RET_BAD_INDEX : Int := -10
abbrev PWR_RET_OP_NO_PERM : Int := -12
abbrev PWR_RET_OUT_OF_RANGE : Int := -13
abbrev PWR_RET_NO_OBJ_AT_INDEX : Int := -14

abbrev NSEC_PER_SEC : UInt64 := 1000000000

/-- `PWR_Role`. A role read from a socket may be any `int`. -/
inductive PwrRole where
  | APP | MC | OS | USER | RM | ADMIN | MGR | ACC
  | INVALID | NOT_SPECIFIED
  | OTHER (raw : Int)
  deriving DecidableEq, Repr

/-- `PWR_AttrName`. An attribute read from a socket may be any `int`. -/
inductive PwrAttrName where
  | PSTATE | CSTATE | CSTATE_LIMIT | SSTATE | CURRENT | VOLTAGE | POWER
  | POWER_LIMIT_MIN | POWER_LIMIT_MAX
  | FREQ | FREQ_REQ | FREQ_LIMIT_MIN | FREQ_LIMIT_MAX
  | ENERGY | TEMP | OS_ID | THROTTLED_TIME | THROTTLED_COUNT | GOV
  | INVALID | NOT_SPECIFIED
  | OTHER (raw : Int)
  deriving DecidableEq, Repr

/-- `PWR_ObjType`. -/
inductive PwrObjType where
  | PLATFORM | CABINET | CHASSIS | BOARD | NODE | SOCKET | CORE | POWER_PLANE | MEM | NIC | HT
  | INVALID | NOT_SPECIFIED
  deriving DecidableEq, Repr

/-- `PWR_AttrStat`. -/
inductive PwrAttrStat where
  | MIN | MAX | AVG | STDEV | CV | SUM
  | INVALID | NOT_SPECIFIED | OTHER (raw : Int)
  deriving DecidableEq, Repr

/-- `PWR_AttrDataType`. A data type read from a socket may be any `int`. -/
inductive PwrAttrDataType where
  | DOUBLE | UINT64
  | INVALID | NOT_SPECIFIED
  | OTHER (raw : Int)
  deriving DecidableEq, Repr

/-- `type_union_t`: one 64-bit word, read as an integer or as a double. -/
structure TypeUnion where
  ivalue : UInt64
  deriving DecidableEq, Repr

def TypeUnion.fvalue (v : TypeUnion) : Binary64 := ⟨v.ivalue⟩

/-- `powerapi_setreq_t`, with `attr` for its member `attribute`. The object and
    metadata numbers are passed through and never interpreted by the daemon. -/
structure SetReq where
  object : Int
  attr : PwrAttrName
  data_type : PwrAttrDataType
  metadata : Int
  value : TypeUnion
  path : String
  deriving DecidableEq, Repr

/-- The log level member of requests and responses. -/
structure LogLevels where
  dbglvl : Int
  trclvl : Int
  deriving DecidableEq, Repr

/-- `powerapi_request_t`: the request type with the union member it selects. -/
inductive Request where
  | PwrAUTH (role : PwrRole) (context_name : String)
  | PwrSET (set : SetReq)
  | PwrLOGLVL (loglvl : LogLevels)
  | PwrDUMP
  | OTHER (ReqType : Int)
  deriving DecidableEq, Repr

/-- `powerapi_response_t`. -/
structure Response where
  retval : Int
  sequence : UInt64 := 0
  loglvl : LogLevels := ⟨0, 0⟩
  deriving DecidableEq, Repr

end pwrapi
