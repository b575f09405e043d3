import PowerApi.Api.GroupCalls

namespace pwrapi

/-- The number of an object type. -/
def PwrObjType.raw : PwrObjType → Int
  | .PLATFORM => 0 | .CABINET => 1 | .CHASSIS => 2 | .BOARD => 3 | .NODE => 4 | .SOCKET => 5 | .CORE => 6
  | .POWER_PLANE => 7 | .MEM => 8 | .NIC => 9 | .HT => 10 | .INVALID => -1 | .NOT_SPECIFIED => -2

/-- The conversion `%u` of an `int`. -/
def print_unsigned (value : Int) : String := toString (value % 2 ^ 32)

/-- `g_node_traverse` in order: the data of the nodes as they are visited. The first argument
bounds the depth. -/
def g_node_traverse (gnodes : HashTable Nat GNode) : Nat → Nat → Option (List Nat)
  | 0, _ => none
  | depth + 1, node =>
    match gnodes.lookup node with
    | none => none
    | some gnode =>
      match gnode.children with
      | [] => some [gnode.data]
      | first :: rest =>
        match g_node_traverse gnodes depth first, rest.mapM (g_node_traverse gnodes depth) with
        | some before, some after => some (before ++ gnode.data :: after.flatten)
        | _, _ => none

/-- `named_groups`. -/
def named_groups : List (String × PwrObjType) :=
  [("all_socket", .SOCKET), ("all_core", .CORE), ("all_mem", .MEM), ("all_ht", .HT)]

namespace Library

def PWR_CntxtGetEntryPoint (context : UInt64) (lib : Library) : Option Reply :=
  let data_key := OPAQUE_GET_DATA_KEY context
  if OPAQUE_GET_CONTEXT_KEY context ≠ data_key then
    some (failure ["Opaque reference is not valid for a context"])
  else
    match lib.opaque_map_lookup_context data_key with
    | none => some (failure ["Failed to find context key = " ++ print_pointer data_key])
    | some ctx =>
      match lib.contexts.lookup ctx with
      | none => none
      | some c =>
        match c.entry_point with
        | none => some (failure ["Context '" ++ c.name ++ "' entry point not set"])
        | some node =>
          match lib.gnodes.lookup node with
          | none => none
          | some gnode =>
            if gnode.data ∈ lib.objects then
              some (success (OPAQUE_GENERATE (lib.opaque_key ctx) (lib.opaque_key gnode.data)))
            else none

/-- `PWR_ObjGetParent`. Its context key is read from the data half of the handle. -/
def PWR_ObjGetParent (object : UInt64) (lib : Library) : Option Reply :=
  let ctx_key := OPAQUE_GET_DATA_KEY object
  let obj_key := OPAQUE_GET_DATA_KEY object
  match lib.opaque_map_lookup_object obj_key with
  | none => some (failure ["Object not found for opaque reference " ++ print_pointer object])
  | some obj =>
    match lib.objects.lookup obj with
    | none => none
    | some o =>
      match o.gnode with
      | none => some (failure ["Object " ++ o.name ++ " is missing gnode, not in hierarchy"])
      | some node =>
        match lib.gnodes.lookup node with
        | none => none
        | some gnode =>
          match gnode.parent with
          | none => some { status := PWR_RET_WARN_NO_PARENT, handle := OPAQUE_GENERATE 0 0 }
          | some parent =>
            match lib.gnodes.lookup parent with
            | none => none
            | some parent_node =>
              if parent_node.data ∈ lib.objects then
                some (success (OPAQUE_GENERATE ctx_key (lib.opaque_key parent_node.data)))
              else none

section Sequence

variable [GSequence]

/-- `group_insert_callback` for each of the nodes. -/
def group_insert_callback (group : Nat) (lib : Library) (node : Nat) : Option Library :=
  match lib.gnodes.lookup node with
  | none => none
  | some gnode => lib.group_insert_obj group gnode.data

/-- The end of `PWR_ObjGetChildren`, with the context and the object. -/
def obj_get_children (ctx obj : Nat) (ctx_key : UInt64) (new : Alloc) (lib : Library) :
    Option (Reply × Library) :=
  match lib.objects.lookup obj with
  | none => none
  | some o =>
    -- a missing node has no first child
    match o.gnode with
    | none => some ({ status := PWR_RET_WARN_NO_CHILDREN }, lib)
    | some node =>
      match lib.gnodes.lookup node with
      | none => none
      | some gnode =>
        if gnode.children = [] then some ({ status := PWR_RET_WARN_NO_CHILDREN }, lib)
        else
          match lib.context_new_group ctx new with
          | none => none
          | some lib =>
            match gnode.children.foldlM (group_insert_callback new.address) lib with
            | none => none
            | some lib => some (success (OPAQUE_GENERATE ctx_key (lib.opaque_key new.address)), lib)

def PWR_ObjGetChildren (object : UInt64) (new : Alloc) (lib : Library) : Option (Reply × Library) :=
  let ctx_key := OPAQUE_GET_CONTEXT_KEY object
  match lib.opaque_map_lookup_context ctx_key with
  | none => some (failure [], lib)
  | some ctx =>
    match lib.opaque_map_lookup_object (OPAQUE_GET_DATA_KEY object) with
    | none => some (failure [], lib)
    | some obj => lib.obj_get_children ctx obj ctx_key new

def populate_named_group (group : Nat) (type : PwrObjType) (lib : Library) (obj : Nat) : Option Library :=
  match lib.objects.lookup obj with
  | none => none
  | some o => if o.type = type then lib.group_insert_obj group obj else some lib

/-- The nodes below the entry point, which are none when there is no entry point. -/
def hierarchy_objects (lib : Library) (ctx : Nat) : Option (List Nat) :=
  match lib.contexts.lookup ctx with
  | none => none
  | some c =>
    match c.entry_point with
    | none => some []
    | some node => g_node_traverse lib.gnodes lib.gnodes.keys.card node

/-- `PWR_CntxtGetGrpByName`, where a missing name is a null pointer. -/
def PWR_CntxtGetGrpByName (context : UInt64) (name : Option String) (new : Alloc) (lib : Library) :
    Option (Reply × Library) :=
  match name with
  | none => some (failure ["invalid name specified!"], lib)
  | some name =>
    match named_groups.lookup name with
    | none =>
      some ({ status := PWR_RET_WARN_NO_GRP_BY_NAME, faults := ["unknown named group: " ++ name] }, lib)
    | some type =>
      if OPAQUE_GET_CONTEXT_KEY context ≠ OPAQUE_GET_DATA_KEY context then
        some (failure ["context keys don't match!"], lib)
      else
        match lib.find_context_by_opaque context with
        | .error faults => some (failure (faults ++ ["context not found!"]), lib)
        | .ok ctx =>
          match lib.context_new_group ctx new with
          | none => none
          | some lib =>
            match lib.hierarchy_objects ctx with
            | none => none
            | some objs =>
              match objs.foldlM (populate_named_group new.address type) lib with
              | none => none
              | some lib =>
                some (success (OPAQUE_GENERATE (lib.opaque_key ctx) (lib.opaque_key new.address)), lib)

end Sequence

/-- The end of `PWR_ObjAttrSetValue`, with the object. The argument stands for
`node_attr_set_value` and its like. -/
def obj_attr_set_value (attr_set_value : PwrObjType → Nat → Int) (obj : Nat) (lib : Library) : Option Reply :=
  match lib.objects.lookup obj with
  | none => none
  | some o =>
    if o.type ∈ [.NODE, .SOCKET, .CORE, .POWER_PLANE, .MEM, .HT] then
      some { status := attr_set_value o.type obj }
    else some (failure ["Invalid PWR_Obj type " ++ print_unsigned o.type.raw])

def PWR_ObjAttrSetValue (object : UInt64) (attr_set_value : PwrObjType → Nat → Int) (lib : Library) :
    Option Reply :=
  let context_key := OPAQUE_GET_CONTEXT_KEY object
  let data_key := OPAQUE_GET_DATA_KEY object
  match lib.opaque_map_lookup_context context_key with
  | none => some (failure ["Invalid PWR_Obj context reference " ++ print_pointer context_key])
  | some _ =>
    match lib.opaque_map_lookup_object data_key with
    | none => some (failure ["Invalid PWR_Obj data reference " ++ print_pointer data_key])
    | some obj => lib.obj_attr_set_value attr_set_value obj

end Library

end pwrapi
