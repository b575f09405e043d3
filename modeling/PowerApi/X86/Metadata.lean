import Mathlib.Data.List.Sort
import PowerApi.Api.Contexts
import PowerApi.Common.Gov
import PowerApi.X86.Hierarchy

namespace pwrapi

/-- The members of `PWR_MetaName` that the attributes answer themselves. -/
inductive PwrMetaName where
  | NUM | MIN | MAX | PRECISION | ACCURACY | UPDATE_RATE | SAMPLE_RATE | TIME_WINDOW
  | TS_LATENCY | TS_ACCURACY | VALUE_LEN | MEASURE_METHOD
  deriving DecidableEq, Repr

/-- `pwr_list_uint64_t` and `pwr_list_double_t`. -/
structure PwrList (α : Type) where
  list : List α := []
  value_len : Nat := 0
  min : α
  max : α
  deriving DecidableEq, Repr

/-- `pwr_list_string_t`. -/
structure PwrListString where
  list : List String := []
  value_len : Nat := 0
  deriving DecidableEq, Repr

/-- How the C libraries read and print numbers: nothing is read where the string is not
one number, or where the number is out of range. -/
structure Conversions where
  g_ascii_strtoull : String → Option UInt64
  g_strtod : String → Option Binary64
  print_lf : Binary64 → String

section Lists

variable {α : Type}

/-- `pwr_list_add_uint64` and `pwr_list_add_double`, with their comparison and the text that
`snprintf` makes of the value. -/
def pwr_list_add (less : α → α → Bool) (text : String) (list : PwrList α) (val : α) : PwrList α :=
  { list := list.list ++ [val]
    value_len := if text.utf8ByteSize ≥ list.value_len then text.utf8ByteSize + 1 else list.value_len
    min := if list.list.length = 0 ∨ less val list.min then val else list.min
    max :=
      if list.list.length = 0 then val
      else if less val list.min then list.max
      else if less list.max val then val
      else list.max }

def pwr_list_add_uint64 (list : PwrList UInt64) (val : UInt64) : PwrList UInt64 :=
  pwr_list_add (fun a b => a < b) (toString val) list val

def pwr_list_add_double (conv : Conversions) (list : PwrList Binary64) (val : Binary64) : PwrList Binary64 :=
  pwr_list_add Binary64.flt (conv.print_lf val) list val

def pwr_list_add_string (list : PwrListString) (str : String) : PwrListString :=
  { list := list.list ++ [str]
    value_len := if str.utf8ByteSize ≥ list.value_len then str.utf8ByteSize + 1 else list.value_len }

def pwr_list_add_str_uint64 (conv : Conversions) (list : PwrList UInt64) (str : String) : Option (PwrList UInt64) :=
  (conv.g_ascii_strtoull str).map (pwr_list_add_uint64 list)

def pwr_list_add_str_double (conv : Conversions) (list : PwrList Binary64) (str : String) :
    Option (PwrList Binary64) :=
  (conv.g_strtod str).map (pwr_list_add_double conv list)

/-- `qsort` of the values with the comparison of their type. -/
def pwr_list_sort (less : α → α → Bool) (list : PwrList α) : PwrList α :=
  { list with list := list.list.insertionSort fun a b => less b a = false }

def pwr_list_sort_uint64 : PwrList UInt64 → PwrList UInt64 := pwr_list_sort fun a b => a < b

def pwr_list_sort_double : PwrList Binary64 → PwrList Binary64 := pwr_list_sort Binary64.flt

end Lists

inductive MetaValue where
  | uint64 (value : UInt64)
  | double (value : Binary64)
  | time (value : UInt64)
  deriving DecidableEq, Repr

/-- What a query of metadata returns: its status, the value it stores and the string. -/
structure MetaAnswer where
  status : Int
  value : Option MetaValue := none
  value_str : Option String := none
  deriving DecidableEq, Repr

namespace MetaAnswer

def ok (value : MetaValue) : MetaAnswer := { status := PWR_RET_SUCCESS, value := some value }

end MetaAnswer

/-- The value at an index, as it is stored and as it is printed. -/
def pwr_list_value_at_index {α : Type} (value : α → MetaValue) (print : α → String) (list : List α) (index : UInt32) :
    MetaAnswer :=
  match list[index.toNat]? with
  | none => { status := PWR_RET_BAD_INDEX }
  | some v => { status := PWR_RET_SUCCESS, value := some (value v), value_str := some (print v) }

def pwr_list_value_at_index_uint64 (list : PwrList UInt64) (index : UInt32) : MetaAnswer :=
  pwr_list_value_at_index .uint64 toString list.list index

def pwr_list_value_at_index_double (conv : Conversions) (list : PwrList Binary64) (index : UInt32) : MetaAnswer :=
  pwr_list_value_at_index .double conv.print_lf list.list index

def pwr_list_value_at_index_string (list : PwrListString) (index : UInt32) : MetaAnswer :=
  pwr_list_value_at_index (fun str => .uint64 (pwr_string_to_gov str).ivalue) id list.list index

namespace x86

/-- `x86_metadata_t`, but for the strings about vendors. -/
structure X86Metadata where
  pm_counters_update_rate : Binary64 := ⟨0⟩
  pm_counters_time_window : UInt64 := 0
  ht_cstate : PwrList UInt64 := { min := 0, max := 0 }
  ht_freq : PwrList Binary64 := { min := ⟨0⟩, max := ⟨0⟩ }
  ht_gov : PwrListString := {}
  deriving DecidableEq, Repr

/-- What the system's files hold: the rate of the counters, the CPUs that are possible and
those online, and for each CPU the entries of its C-state directory, with whether they are
directories, and the words of its lists of frequencies and of governors. -/
structure SystemFiles where
  raw_scan_hz : Option UInt64
  cpu_masks : Option (List (Bool × Bool))
  cstate_dir : UInt64 → Option (List (Bool × String))
  freq_list : UInt64 → Option (List String)
  governor_list : UInt64 → Option (List String)
  topology : Topology

/-- What a construction finds beside the files: the CPU that it runs on, the objects it may
create, and whether all temperature sensors are found. -/
structure SystemView where
  cpu : Option UInt64
  node : NewObj
  pplane_cpu : NewObj
  pplane_mem : NewObj
  hts : UInt64 → HtCall
  temp_ids : Bool

section Read

variable (conv : Conversions) (files : SystemFiles)

def x86_read_pm_counters_metadata (md : X86Metadata) : Option (Int × X86Metadata) :=
  match files.raw_scan_hz with
  | none => some (PWR_RET_FAILURE, md)
  | some ival =>
    -- the division by a rate of zero brings the process down
    if ival = 0 then none
    else some (PWR_RET_SUCCESS, { md with pm_counters_update_rate := .of_uint64 ival,
                                          pm_counters_time_window := NSEC_PER_SEC / ival })

/-- The numbers of the entries that are directories and named after a state. -/
def cstate_numbers (entries : List (Bool × String)) : List String :=
  (entries.filter fun entry => entry.1 && entry.2.startsWith "state").map fun entry => (entry.2.drop 5).toString

def x86_read_ht_cstate_metadata (ht_id : UInt64) (md : X86Metadata) : Int × X86Metadata :=
  match files.cstate_dir ht_id with
  | none => (PWR_RET_FAILURE, md)
  | some entries =>
    match (cstate_numbers entries).foldlM (pwr_list_add_str_uint64 conv) { min := 0, max := 0 } with
    | none => (PWR_RET_FAILURE, md)
    | some list => (PWR_RET_SUCCESS, { md with ht_cstate := pwr_list_sort_uint64 list })

def x86_read_ht_freq_metadata (ht_id : UInt64) (md : X86Metadata) : Int × X86Metadata :=
  match files.freq_list ht_id with
  | none => (PWR_RET_FAILURE, md)
  | some strlist =>
    match strlist.foldlM (pwr_list_add_str_double conv) { min := ⟨0⟩, max := ⟨0⟩ } with
    | none => (PWR_RET_FAILURE, md)
    | some list => (PWR_RET_SUCCESS, { md with ht_freq := pwr_list_sort_double list })

def x86_read_ht_gov_metadata (ht_id : UInt64) (md : X86Metadata) : Int × X86Metadata :=
  match files.governor_list ht_id with
  | none => (PWR_RET_FAILURE, md)
  | some strlist => (PWR_RET_SUCCESS, { md with ht_gov := strlist.foldl pwr_list_add_string {} })

def x86_read_ht_metadata (ht_id : UInt64) (md : X86Metadata) : Int × X86Metadata :=
  match x86_read_ht_cstate_metadata conv files ht_id md with
  | (status, md) =>
    if status ≠ 0 then (status, md)
    else
      match x86_read_ht_freq_metadata conv files ht_id md with
      | (status, md) => if status ≠ 0 then (status, md) else x86_read_ht_gov_metadata files ht_id md

/-- The loop of `x86_read_topology` over the CPUs from `ht_id` on. -/
def x86_read_topology_loop (view : SystemView) : List (Bool × Bool) → UInt64 → Int × Hierarchy → Int × Hierarchy
  | [], _, state => state
  | (possible, online) :: rest, ht_id, (status, h) =>
    if possible then
      if online then
        match h.x86_find_ht files.topology (view.hts ht_id) with
        | (none, h) => (PWR_RET_FAILURE, h)
        | (some _, h) => x86_read_topology_loop view rest (ht_id + 1) (status, h)
      else x86_read_topology_loop view rest (ht_id + 1) (status, h)
    else x86_read_topology_loop view rest ht_id (status, h)

/-- A failure to read the metadata is remembered while the topology is read. -/
def x86_read_topology (view : SystemView) (masks : List (Bool × Bool)) (h : Hierarchy) (md : X86Metadata) :
    Int × Hierarchy × X86Metadata :=
  match view.cpu with
  | none =>
    match x86_read_topology_loop files view masks 0 (PWR_RET_FAILURE, h) with
    | (status, h) => (status, h, md)
  | some cpu =>
    match x86_read_ht_metadata conv files cpu md with
    | (status, md) =>
      match x86_read_topology_loop files view masks 0 (status, h) with
      | (status, h) => (status, h, md)

def x86_read_hierarchy (view : SystemView) (h : Hierarchy) (md : X86Metadata) : Int × Hierarchy × X86Metadata :=
  match files.cpu_masks with
  | none => (PWR_RET_FAILURE, h, md)
  | some masks =>
    match x86_read_topology conv files view masks h md with
    | (status, h, md) =>
      if status ≠ 0 then (PWR_RET_FAILURE, h, md)
      else (if view.temp_ids then PWR_RET_SUCCESS else PWR_RET_FAILURE, h, md)

/-- The record is one for the process, and set to zeros first. -/
def x86_construct_hierarchy (view : SystemView) (_ : X86Metadata) : Option (Int × Hierarchy × X86Metadata) :=
  match x86_read_pm_counters_metadata files {} with
  | none => none
  | some (status, md) =>
    if status ≠ 0 then some (PWR_RET_FAILURE, {}, md)
    else
      match ({} : Hierarchy).x86_insert_node view.node view.pplane_cpu view.pplane_mem with
      | (status, h) => if status ≠ 0 then some (status, h, md) else some (x86_read_hierarchy conv files view h md)

def x86_destruct_hierarchy (_ : Hierarchy) (_ : X86Metadata) : X86Metadata := {}

def x86_plugin : Plugin X86Metadata Hierarchy SystemView where
  construct_hierarchy := x86_construct_hierarchy conv files
  destruct_hierarchy := x86_destruct_hierarchy

end Read

section Queries

/-- What an object answers out of its own numbers, the files they lead to and the clock. -/
abbrev Probe := HierObj → PwrAttrName → PwrMetaName → MetaAnswer

variable (conv : Conversions) (probe : Probe) (md : X86Metadata)

def no_meta : MetaAnswer := { status := PWR_RET_NO_META }

def no_attrib : MetaAnswer := { status := PWR_RET_NO_ATTRIB }

def x86_os_id_get_meta (obj : HierObj) : PwrMetaName → MetaAnswer
  | .NUM => .ok (.uint64 0)
  | .MIN | .MAX => .ok (.uint64 obj.os_id)
  | _ => no_meta

def x86_obj_get_meta (obj : HierObj) (attr : PwrAttrName) (name : PwrMetaName) : MetaAnswer :=
  match attr with
  | .NOT_SPECIFIED => no_meta
  | .OS_ID => x86_os_id_get_meta obj name
  | _ => no_attrib

/-- The metadata of the power and energy of a node or a power plane. -/
def pm_counters_get_meta (attr : PwrAttrName) (obj : HierObj) : PwrMetaName → MetaAnswer
  | .NUM => .ok (.uint64 0)
  | .UPDATE_RATE => .ok (.double md.pm_counters_update_rate)
  | .TS_LATENCY => .ok (.time 0)
  | .TS_ACCURACY => probe obj attr .TS_ACCURACY
  | .MEASURE_METHOD => .ok (.uint64 0)
  | _ => no_meta

def x86_node_power_get_meta : HierObj → PwrMetaName → MetaAnswer := pm_counters_get_meta probe md .POWER

def x86_node_power_limit_max_get_meta : HierObj → PwrMetaName → MetaAnswer :=
  pm_counters_get_meta probe md .POWER_LIMIT_MAX

def x86_node_energy_get_meta : HierObj → PwrMetaName → MetaAnswer := pm_counters_get_meta probe md .ENERGY

/-- The accuracy of the energy is measured with the power. -/
def x86_pplane_power_get_meta : HierObj → PwrMetaName → MetaAnswer := pm_counters_get_meta probe md .POWER

def x86_pplane_energy_get_meta : HierObj → PwrMetaName → MetaAnswer := pm_counters_get_meta probe md .POWER

/-- The metadata of the power of a socket or its memory, with the time window of the object. -/
def x86_power_get_meta (obj : HierObj) : PwrMetaName → MetaAnswer
  | .TIME_WINDOW => probe obj .POWER .TIME_WINDOW
  | name => pm_counters_get_meta probe md .POWER obj name

/-- The metadata of a value from 0 to the maximum that a file gives. -/
def measured_get_meta (attr : PwrAttrName) (obj : HierObj) : PwrMetaName → MetaAnswer
  | .NUM => .ok (.uint64 0)
  | .MIN => .ok (.double ⟨0⟩)
  | .MAX => probe obj attr .MAX
  | .TS_LATENCY => .ok (.time 0)
  | .TS_ACCURACY => probe obj attr .TS_ACCURACY
  | .MEASURE_METHOD => .ok (.uint64 0)
  | _ => no_meta

def power_limit_max_get_meta (obj : HierObj) : PwrMetaName → MetaAnswer
  | .TIME_WINDOW => probe obj .POWER_LIMIT_MAX .TIME_WINDOW
  | name => measured_get_meta probe .POWER_LIMIT_MAX obj name

def throttled_time_get_meta (obj : HierObj) : PwrMetaName → MetaAnswer
  | .NUM => .ok (.uint64 0)
  | .MIN => .ok (.time 0)
  | .MAX => .ok (.time (0x100000000 * 1000))
  | .UPDATE_RATE => probe obj .THROTTLED_TIME .UPDATE_RATE
  | .TS_LATENCY => .ok (.time 0)
  | .TS_ACCURACY => probe obj .THROTTLED_TIME .TS_ACCURACY
  | .MEASURE_METHOD => .ok (.uint64 0)
  | _ => no_meta

def x86_ht_cstate_limit_get_meta (ht : HierObj) : PwrMetaName → MetaAnswer
  | .NUM => .ok (.uint64 (.ofNat md.ht_cstate.list.length))
  | .MIN => .ok (.uint64 md.ht_cstate.min)
  | .MAX => .ok (.uint64 md.ht_cstate.max)
  | .UPDATE_RATE => .ok (.double ⟨0⟩)
  | .TS_LATENCY => .ok (.time 0)
  | .TS_ACCURACY => probe ht .CSTATE_LIMIT .TS_ACCURACY
  | .VALUE_LEN => .ok (.uint64 (.ofNat md.ht_cstate.value_len))
  | .MEASURE_METHOD => .ok (.uint64 0)
  | _ => no_meta

/-- The metadata of the four attributes that are frequencies. -/
def ht_freq_get_meta (attr : PwrAttrName) (ht : HierObj) : PwrMetaName → MetaAnswer
  | .NUM => .ok (.uint64 (.ofNat md.ht_freq.list.length))
  | .MIN => .ok (.double md.ht_freq.min)
  | .MAX => .ok (.double md.ht_freq.max)
  | .UPDATE_RATE => .ok (.double ⟨0⟩)
  | .TS_LATENCY => .ok (.time 0)
  | .TS_ACCURACY => probe ht attr .TS_ACCURACY
  | .VALUE_LEN => .ok (.uint64 (.ofNat md.ht_freq.value_len))
  | .MEASURE_METHOD => .ok (.uint64 0)
  | _ => no_meta

def x86_ht_freq_get_meta : HierObj → PwrMetaName → MetaAnswer := ht_freq_get_meta probe md .FREQ

def x86_ht_freq_req_get_meta : HierObj → PwrMetaName → MetaAnswer := ht_freq_get_meta probe md .FREQ_REQ

def x86_ht_freq_limit_min_get_meta : HierObj → PwrMetaName → MetaAnswer := ht_freq_get_meta probe md .FREQ_LIMIT_MIN

def x86_ht_freq_limit_max_get_meta : HierObj → PwrMetaName → MetaAnswer := ht_freq_get_meta probe md .FREQ_LIMIT_MAX

def x86_ht_gov_get_meta (ht : HierObj) : PwrMetaName → MetaAnswer
  | .NUM => .ok (.uint64 (.ofNat md.ht_gov.list.length))
  | .TS_LATENCY => .ok (.time 0)
  | .TS_ACCURACY => probe ht .GOV .TS_ACCURACY
  | .VALUE_LEN => .ok (.uint64 (.ofNat md.ht_gov.value_len))
  | .MEASURE_METHOD => .ok (.uint64 0)
  | _ => no_meta

def x86_node_get_meta (node : HierObj) (attr : PwrAttrName) (name : PwrMetaName) : MetaAnswer :=
  match attr with
  | .NOT_SPECIFIED | .OS_ID => x86_obj_get_meta node attr name
  | .POWER => x86_node_power_get_meta probe md node name
  | .POWER_LIMIT_MAX => x86_node_power_limit_max_get_meta probe md node name
  | .ENERGY => x86_node_energy_get_meta probe md node name
  | _ => no_attrib

def x86_pplane_get_meta (pplane : HierObj) (attr : PwrAttrName) (name : PwrMetaName) : MetaAnswer :=
  match attr with
  | .NOT_SPECIFIED | .OS_ID => x86_obj_get_meta pplane attr name
  | .POWER => x86_pplane_power_get_meta probe md pplane name
  | .ENERGY => x86_pplane_energy_get_meta probe md pplane name
  | _ => no_attrib

def x86_mem_get_meta (mem : HierObj) (attr : PwrAttrName) (name : PwrMetaName) : MetaAnswer :=
  match attr with
  | .NOT_SPECIFIED | .OS_ID => x86_obj_get_meta mem attr name
  | .POWER => x86_power_get_meta probe md mem name
  | .POWER_LIMIT_MAX => power_limit_max_get_meta probe mem name
  | .ENERGY => measured_get_meta probe .ENERGY mem name
  | .THROTTLED_TIME => throttled_time_get_meta probe mem name
  | _ => no_attrib

def x86_socket_get_meta (socket : HierObj) (attr : PwrAttrName) (name : PwrMetaName) : MetaAnswer :=
  match attr with
  | .NOT_SPECIFIED | .OS_ID => x86_obj_get_meta socket attr name
  | .POWER => x86_power_get_meta probe md socket name
  | .POWER_LIMIT_MAX => power_limit_max_get_meta probe socket name
  | .ENERGY => measured_get_meta probe .ENERGY socket name
  | .TEMP => measured_get_meta probe .TEMP socket name
  | .THROTTLED_TIME => throttled_time_get_meta probe socket name
  | _ => no_attrib

def x86_core_get_meta (core : HierObj) (attr : PwrAttrName) (name : PwrMetaName) : MetaAnswer :=
  match attr with
  | .NOT_SPECIFIED | .OS_ID => x86_obj_get_meta core attr name
  | .TEMP => measured_get_meta probe .TEMP core name
  | _ => no_attrib

def x86_ht_get_meta (ht : HierObj) (attr : PwrAttrName) (name : PwrMetaName) : MetaAnswer :=
  match attr with
  | .NOT_SPECIFIED | .OS_ID => x86_obj_get_meta ht attr name
  | .CSTATE_LIMIT => x86_ht_cstate_limit_get_meta probe md ht name
  | .FREQ => x86_ht_freq_get_meta probe md ht name
  | .FREQ_REQ => x86_ht_freq_req_get_meta probe md ht name
  | .FREQ_LIMIT_MIN => x86_ht_freq_limit_min_get_meta probe md ht name
  | .FREQ_LIMIT_MAX => x86_ht_freq_limit_max_get_meta probe md ht name
  | .GOV => x86_ht_gov_get_meta probe md ht name
  | _ => no_attrib

def obj_attr_get_meta_plugin (obj : HierObj) (attr : PwrAttrName) (name : PwrMetaName) : MetaAnswer :=
  match obj.type with
  | .NODE => x86_node_get_meta probe md obj attr name
  | .SOCKET => x86_socket_get_meta probe md obj attr name
  | .CORE => x86_core_get_meta probe obj attr name
  | .POWER_PLANE => x86_pplane_get_meta probe md obj attr name
  | .MEM => x86_mem_get_meta probe md obj attr name
  | .HT => x86_ht_get_meta probe md obj attr name
  | _ => { status := PWR_RET_BAD_VALUE }

def x86_ht_get_meta_at_index (attr : PwrAttrName) (index : UInt32) : MetaAnswer :=
  match attr with
  | .CSTATE_LIMIT => pwr_list_value_at_index_uint64 md.ht_cstate index
  | .FREQ | .FREQ_REQ | .FREQ_LIMIT_MIN | .FREQ_LIMIT_MAX => pwr_list_value_at_index_double conv md.ht_freq index
  | .GOV => pwr_list_value_at_index_string md.ht_gov index
  | _ => no_attrib

/-- The dispatch of `PWR_MetaValueAtIndex`: no other type has attributes with values to list. -/
def obj_get_meta_at_index (obj : HierObj) (attr : PwrAttrName) (index : UInt32) : MetaAnswer :=
  match obj.type with
  | .NODE | .SOCKET | .CORE | .POWER_PLANE | .MEM => no_attrib
  | .HT => x86_ht_get_meta_at_index conv md attr index
  | _ => { status := PWR_RET_FAILURE }

/-- A query of an object of a context. -/
structure MetaQuery where
  context : Nat
  object : Nat
  attr : PwrAttrName
  item : PwrMetaName ⊕ UInt32
  deriving DecidableEq, Repr

/-- The answer to a query, where the context is alive and has the object. -/
def answer (s : Contexts X86Metadata Hierarchy) (q : MetaQuery) : Option MetaAnswer :=
  ((s.contexts.lookup q.context).bind CntxtRecord.hierarchy).bind fun hierarchy =>
    (hierarchy.objects.lookup q.object).map fun obj =>
      match q.item with
      | .inl name => obj_attr_get_meta_plugin probe s.plugin_data obj q.attr name
      | .inr index => obj_get_meta_at_index conv s.plugin_data obj q.attr index

end Queries

end x86

end pwrapi
