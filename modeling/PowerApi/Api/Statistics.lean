import PowerApi.Api.GroupCalls

namespace pwrapi

/-- The number of an attribute, as `%d` prints it. -/
def PwrAttrName.raw : PwrAttrName → Int
  | .PSTATE => 0 | .CSTATE => 1 | .CSTATE_LIMIT => 2 | .SSTATE => 3 | .CURRENT => 4 | .VOLTAGE => 5
  | .POWER => 6 | .POWER_LIMIT_MIN => 7 | .POWER_LIMIT_MAX => 8 | .FREQ => 9 | .FREQ_REQ => 10
  | .FREQ_LIMIT_MIN => 11 | .FREQ_LIMIT_MAX => 12 | .ENERGY => 13 | .TEMP => 14 | .OS_ID => 15
  | .THROTTLED_TIME => 16 | .THROTTLED_COUNT => 17 | .GOV => 18
  | .INVALID => -1 | .NOT_SPECIFIED => -2 | .OTHER raw => raw

def PwrAttrStat.raw : PwrAttrStat → Int
  | .MIN => 0 | .MAX => 1 | .AVG => 2 | .STDEV => 3 | .CV => 4 | .SUM => 5
  | .INVALID => -1 | .NOT_SPECIFIED => -2 | .OTHER raw => raw

abbrev PWR_NUM_ATTR_NAMES : Int := 19
abbrev PWR_NUM_ATTR_STATS : Int := 6

/-- The status and the faults logged. -/
def validate_attribute : PwrAttrName → Int × List String
  | .POWER | .ENERGY | .TEMP => (PWR_RET_SUCCESS, [])
  | name =>
    if name = .INVALID ∨ name = .NOT_SPECIFIED ∨ name.raw = PWR_NUM_ATTR_NAMES then
      (PWR_RET_FAILURE, ["invalid attribute (" ++ toString name.raw ++ ")!"])
    else (PWR_RET_NOT_IMPLEMENTED, [])

def validate_statistic : PwrAttrStat → Int × List String
  | .MIN | .MAX | .AVG | .STDEV => (PWR_RET_SUCCESS, [])
  | statistic =>
    if statistic = .INVALID ∨ statistic = .NOT_SPECIFIED ∨ statistic.raw = PWR_NUM_ATTR_STATS then
      (PWR_RET_FAILURE, ["invalid statistic (" ++ toString statistic.raw ++ ")!"])
    else (PWR_RET_NOT_IMPLEMENTED, [])

/-- `is_invalid`. -/
def Stat.is_invalid (s : Stat) : Bool := s.obj = 0 ∧ s.grp = 0

/-- `stop_thread`. -/
def Stat.stop_thread (s : Stat) : Stat := { s with thread := false }

/-- `start_thread`, with whether a new thread can be had. -/
def Stat.start_thread (s : Stat) (thread : Bool) : Stat := { s.stop_thread with thread }

namespace Library

/-- `new_stat`. The opaque map always gives a key. -/
def new_stat (lib : Library) (new : Alloc) : Option Library :=
  match opaque_map_insert .STAT new.address new.draws lib.opaque_map with
  | some (_, [], map) => some { lib with opaque_map := map, stats := lib.stats.insert new.address {} }
  | _ => none

def del_stat (lib : Library) (stat : Nat) : Option Library :=
  match lib.stats.lookup stat with
  | none => none
  | some _ =>
    let map := if lib.opaque_key stat ≠ 0 then (opaque_map_remove lib.opaque_map (lib.opaque_key stat)).2
               else lib.opaque_map
    some { lib with opaque_map := map, stats := lib.stats.erase stat }

def context_new_statistic (lib : Library) (context : Nat) (new : Alloc) : Option Library :=
  match lib.new_stat new, lib.contexts.lookup context with
  | some lib, some ctx =>
    some { lib with
      contexts := lib.contexts.insert context { ctx with stat_list := new.address :: ctx.stat_list },
      stats := lib.stats.insert new.address { context_key := lib.opaque_key context } }
  | _, _ => none

def context_del_statistic (lib : Library) (context stat : Nat) : Option Library :=
  match lib.contexts.lookup context with
  | none => none
  | some ctx =>
    if stat ∈ ctx.stat_list then
      { lib with contexts := lib.contexts.insert context
                  { ctx with stat_list := ctx.stat_list.erase stat } }.del_stat stat
    else none

/-- `group_new_statistic`: the faults logged, or the library with the new statistic. -/
def group_new_statistic (lib : Library) (group : Nat) (new : Alloc) :
    Option (Except (List String) Library) :=
  match lib.groups.lookup group with
  | none => none
  | some g =>
    match lib.opaque_map_lookup_context g.context_key with
    | none => some (.error ["context not found!"])
    | some ctx =>
      match lib.context_new_statistic ctx new, g_list_prepend g.stat_list new.address with
      | some lib, some stat_list =>
        some (.ok { lib with groups := lib.groups.insert group { g with stat_list } })
      | _, _ => none

def group_del_statistic (lib : Library) (group stat : Nat) : Option (List String × Library) :=
  match lib.groups.lookup group with
  | none => none
  | some g =>
    match g_list_delete_link g.stat_list stat with
    | none => none
    | some stat_list =>
      let lib := { lib with groups := lib.groups.insert group { g with stat_list } }
      match lib.opaque_map_lookup_context g.context_key with
      | none => some (["context not found!"], lib)
      | some ctx =>
        match lib.context_del_statistic ctx stat with
        | none => none
        | some lib => some ([], lib)

end Library

/-- What the calls that read attributes and metadata answer to `PWR_GrpCreateStat`. -/
structure Monitor where
  reading : Int := PWR_RET_SUCCESS
  meta_status : Int := PWR_RET_SUCCESS
  rate_positive : Bool := true

namespace Library

/-- The end of `PWR_GrpCreateStat`, once the group has the new statistic. The status is the
one returned, and the faults those logged. -/
def init_group_stat (group : UInt64) (name : PwrAttrName) (statistic : PwrAttrStat) (grplen : Int)
    (monitor : Monitor) (stat : Nat) (lib : Library) : Option (Int × List String × Library) :=
  match lib.stats.lookup stat with
  | none => none
  | some s =>
    let lib := { lib with stats := lib.stats.insert stat
                            { s with grp := group, attr := name, stat := statistic, objcount := grplen } }
    match lib.PWR_GrpGetObjByIndx group 0 with
    | none => none
    | some reply =>
      if reply.status ≠ PWR_RET_SUCCESS then
        some (PWR_RET_FAILURE, reply.faults ++ ["unable to access first object in group!"], lib)
      else if monitor.meta_status ≠ PWR_RET_NO_META ∧
          (monitor.meta_status ≠ PWR_RET_SUCCESS ∨ monitor.rate_positive = false) then
        some (PWR_RET_FAILURE, ["unable to get update_rate for statistic!"], lib)
      else some (PWR_RET_SUCCESS, [], lib)

def PWR_GrpCreateStat (group : UInt64) (name : PwrAttrName) (statistic : PwrAttrStat) (monitor : Monitor)
    (new : Alloc) (lib : Library) : Option (Reply × Library) :=
  let valid := validate_attribute name
  if valid.1 ≠ PWR_RET_SUCCESS then
    some ({ status := valid.1,
            faults := valid.2 ++ ["Invalid attribute (" ++ toString name.raw ++ ")."] }, lib)
  else
    let requested := validate_statistic statistic
    if requested.1 ≠ PWR_RET_SUCCESS then
      some ({ status := requested.1,
              faults := requested.2 ++ ["Invalid statistic requested (" ++ toString statistic.raw ++ ")."] }, lib)
    else
      match lib.opaque_map_lookup_group (OPAQUE_GET_DATA_KEY group) with
      | none => some (failure ["group not found!"], lib)
      | some grp =>
        match lib.PWR_GrpGetNumObjs group with
        | none => none
        | some counted =>
          if counted.status ≤ 0 then some (failure (counted.faults ++ ["invalid group!"]), lib)
          else
            match lib.opaque_map_lookup_context (OPAQUE_GET_CONTEXT_KEY group) with
            | none => some (failure ["context not found!"], lib)
            | some ctx =>
              if monitor.reading ≠ PWR_RET_SUCCESS then
                some ({ status := monitor.reading,
                        faults := ["Unable to monitor group attribute, statistic not created!"] }, lib)
              else
                match lib.group_new_statistic grp new with
                | none => none
                | some (.error faults) =>
                  some (failure (faults ++ ["unable to create new statistic!"]), lib)
                | some (.ok lib) =>
                  match lib.init_group_stat group name statistic counted.status monitor new.address with
                  | none => none
                  | some (status, faults, lib) =>
                    if status ≠ PWR_RET_SUCCESS then
                      match lib.group_del_statistic grp new.address with
                      | none => none
                      | some (more, lib) => some ({ status, faults := faults ++ more }, lib)
                    else
                      some (success (OPAQUE_GENERATE (lib.opaque_key ctx) (lib.opaque_key new.address)), lib)

def PWR_StatDestroy (statObj : UInt64) (lib : Library) : Option (Reply × Library) :=
  match lib.opaque_map_lookup_stat (OPAQUE_GET_DATA_KEY statObj) with
  | none => some (failure ["statistic not found!"], lib)
  | some stat =>
    match lib.opaque_map_lookup_context (OPAQUE_GET_CONTEXT_KEY statObj) with
    | none => some (failure ["context not found!"], lib)
    | some ctx =>
      match lib.stats.lookup stat with
      | none => none
      | some s =>
        if s.grp ≠ 0 then
          match lib.opaque_map_lookup_group (OPAQUE_GET_DATA_KEY s.grp) with
          | none => some (failure ["group not found!"], lib)
          | some grp =>
            match lib.group_del_statistic grp stat with
            | none => none
            | some (faults, lib) => some ({ status := PWR_RET_SUCCESS, faults }, lib)
        else
          -- an object statistic, or one that was invalidated
          match lib.context_del_statistic ctx stat with
          | none => none
          | some lib => some (success, lib)

/-- The beginning of `PWR_StatStart` and `PWR_StatStop`: the statistic, unless it is invalid. -/
def find_valid_stat (statObj : UInt64) (lib : Library) : Option (Except Reply (Nat × Stat)) :=
  match lib.opaque_map_lookup_stat (OPAQUE_GET_DATA_KEY statObj) with
  | none => some (.error (failure ["statistic not found!"]))
  | some stat =>
    match lib.stats.lookup stat with
    | none => none
    | some s =>
      if s.is_invalid then
        some (.error { status := PWR_RET_INVALID, faults := ["statistic no longer has a group to monitor!"] })
      else some (.ok (stat, s))

/-- `PWR_StatStart`, at the given time, which is 0 when it cannot be read. -/
def PWR_StatStart (statObj time : UInt64) (thread : Bool) (lib : Library) : Option (Reply × Library) :=
  match lib.find_valid_stat statObj with
  | none => none
  | some (.error reply) => some (reply, lib)
  | some (.ok (stat, s)) =>
    if time = 0 then some (failure [], { lib with stats := lib.stats.insert stat { s with start := time } })
    else
      let s := { s with start := time, stop := 0 }
      some (success, { lib with stats := lib.stats.insert stat (s.start_thread thread) })

def PWR_StatStop (statObj time : UInt64) (lib : Library) : Option (Reply × Library) :=
  match lib.find_valid_stat statObj with
  | none => none
  | some (.error reply) => some (reply, lib)
  | some (.ok (stat, s)) =>
    if time = 0 then some (failure [], { lib with stats := lib.stats.insert stat { s with stop := time } })
    else
      let s := { s with stop := time }
      some (success, { lib with stats := lib.stats.insert stat s.stop_thread })

end Library

/-- The calls on groups and on their statistics. -/
inductive StatCall where
  | Group (call : GroupCall)
  | GrpDestroy (group : UInt64)
  | GrpCreateStat (group : UInt64) (name : PwrAttrName) (statistic : PwrAttrStat) (monitor : Monitor) (new : Alloc)
  | StatStart (statObj time : UInt64) (thread : Bool)
  | StatStop (statObj time : UInt64)
  | StatDestroy (statObj : UInt64)

def StatCall.new : StatCall → Option Alloc
  | .Group call => call.new
  | .GrpCreateStat _ _ _ _ new => some new
  | .GrpDestroy _ | .StatStart _ _ _ | .StatStop _ _ | .StatDestroy _ => none

def StatCall.perform [GSequence] : StatCall → Library → Option (Reply × Library)
  | .Group call => call.perform
  | .GrpDestroy group => Library.PWR_GrpDestroy group
  | .GrpCreateStat group name statistic monitor new =>
    Library.PWR_GrpCreateStat group name statistic monitor new
  | .StatStart statObj time thread => Library.PWR_StatStart statObj time thread
  | .StatStop statObj time => Library.PWR_StatStop statObj time
  | .StatDestroy statObj => Library.PWR_StatDestroy statObj

end pwrapi
