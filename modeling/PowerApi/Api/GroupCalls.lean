import PowerApi.Api.Group

namespace pwrapi

namespace Library

def success (handle : UInt64 := 0) : Reply := { status := PWR_RET_SUCCESS, handle }

def failure (faults : List String) : Reply := { status := PWR_RET_FAILURE, faults }

def PWR_GrpCreate (context : UInt64) (new : Alloc) (lib : Library) : Option (Reply × Library) :=
  let ctx_key := OPAQUE_GET_CONTEXT_KEY context
  if ctx_key ≠ OPAQUE_GET_DATA_KEY context then some (failure ["context keys don't match!"], lib)
  else
    match lib.opaque_map_lookup_context ctx_key with
    | none => some (failure ["context not found!"], lib)
    | some ctx =>
      match lib.context_new_group ctx new with
      | none => none
      | some lib =>
        some (success (OPAQUE_GENERATE (lib.opaque_key ctx) (lib.opaque_key new.address)), lib)

def PWR_GrpDestroy (group : UInt64) (lib : Library) : Option (Reply × Library) :=
  match lib.find_group_by_opaque group with
  | none => none
  | some (.error faults) => some (failure (faults ++ ["group not found!"]), lib)
  | some (.ok grp) =>
    match lib.find_context_by_opaque group with
    | .error faults => some (failure (faults ++ ["context not found!"]), lib)
    | .ok ctx =>
      match lib.context_del_group ctx grp with
      | none => none
      | some lib => some (success, lib)

def PWR_GrpDuplicate (group1 : UInt64) (new : Alloc) (lib : Library) : Option (Reply × Library) :=
  match lib.find_group_by_opaque group1 with
  | none => none
  | some (.error faults) => some (failure (faults ++ ["group not found!"]), lib)
  | some (.ok grp1) =>
    match lib.find_context_by_opaque group1 with
    | .error faults => some (failure (faults ++ ["context not found!"]), lib)
    | .ok ctx =>
      match lib.context_new_group ctx new with
      | none => none
      | some lib =>
        match lib.group_copy grp1 new.address with
        | none => none
        | some lib =>
          some (success (OPAQUE_GENERATE (OPAQUE_GET_CONTEXT_KEY group1) (lib.opaque_key new.address)), lib)

/-- The beginning of `PWR_GrpAddObj` and `PWR_GrpRemoveObj`: the group and the object. -/
def find_member (group object : UInt64) (lib : Library) : Option (Except (List String) (Nat × Nat)) :=
  if OPAQUE_GET_CONTEXT_KEY object ≠ OPAQUE_GET_CONTEXT_KEY group then
    some (.error ["object and group are not in the same context!"])
  else
    match lib.find_group_by_opaque group with
    | none => none
    | some (.error faults) => some (.error (faults ++ ["Group not found!"]))
    | some (.ok grp) =>
      match lib.opaque_map_lookup_object (OPAQUE_GET_DATA_KEY object) with
      | none => some (.error ["object key not found!"])
      | some obj => some (.ok (grp, obj))

section Sequence

variable [GSequence]

def PWR_GrpAddObj (group object : UInt64) (lib : Library) : Option (Reply × Library) :=
  match lib.find_member group object with
  | none => none
  | some (.error faults) => some (failure faults, lib)
  | some (.ok (grp, obj)) =>
    match lib.group_insert_obj grp obj with
    | none => none
    | some lib => some (success, lib)

def PWR_GrpRemoveObj (group object : UInt64) (lib : Library) : Option (Reply × Library) :=
  match lib.find_member group object with
  | none => none
  | some (.error faults) => some (failure faults, lib)
  | some (.ok (grp, obj)) =>
    match lib.group_remove_obj grp obj with
    | none => none
    | some lib => some (success, lib)

end Sequence

def PWR_GrpGetNumObjs (group : UInt64) (lib : Library) : Option Reply :=
  match lib.find_group_by_opaque group with
  | none => none
  | some (.error faults) => some (failure (faults ++ ["Group not found!"]))
  | some (.ok grp) =>
    match lib.groups.lookup grp with
    | none => none
    | some g => some { status := g.list.length }

def PWR_GrpGetObjByIndx (group : UInt64) (index : Int) (lib : Library) : Option Reply :=
  if index < 0 then
    some { status := PWR_RET_BAD_INDEX, faults := ["negative index (" ++ toString index ++ ")!"] }
  else
    match lib.find_group_by_opaque group with
    | none => none
    | some (.error faults) => some (failure (faults ++ ["Group not found!"]))
    | some (.ok grp) =>
      match lib.groups.lookup grp with
      | none => none
      | some g =>
        match g.list[index.toNat]? with
        | none =>
          some { status := PWR_RET_NO_OBJ_AT_INDEX,
                 faults := ["no group at index (" ++ toString index ++ ")!"] }
        | some obj =>
          if obj ∈ lib.objects then
            some (success (OPAQUE_GENERATE (OPAQUE_GET_CONTEXT_KEY group) (lib.opaque_key obj)))
          else none

/-- The call of `group_union` and its like, with both groups' lists and the new group's. -/
def fill_group (operation : List Nat → List Nat → List Nat → List Nat) (grp1 grp2 grp3 : Nat)
    (lib : Library) : Option Library :=
  match lib.groups.lookup grp1, lib.groups.lookup grp2, lib.groups.lookup grp3 with
  | some g1, some g2, some g3 =>
    some { lib with groups := lib.groups.insert grp3 { g3 with list := operation g1.list g2.list g3.list } }
  | _, _, _ => none

/-- The body that `PWR_GrpUnion`, `PWR_GrpIntersection`, `PWR_GrpDifference` and
`PWR_GrpSymDifference` share. -/
def group_operation (operation : List Nat → List Nat → List Nat → List Nat) (group1 group2 : UInt64)
    (new : Alloc) (lib : Library) : Option (Reply × Library) :=
  if OPAQUE_GET_CONTEXT_KEY group1 ≠ OPAQUE_GET_CONTEXT_KEY group2 then
    some (failure ["groups are not in the same context!"], lib)
  else
    match lib.find_group_by_opaque group1 with
    | none => none
    | some (.error faults) => some (failure (faults ++ ["Group 1 not found!"]), lib)
    | some (.ok grp1) =>
      match lib.find_group_by_opaque group2 with
      | none => none
      | some (.error faults) => some (failure (faults ++ ["Group 2 not found!"]), lib)
      | some (.ok grp2) =>
        match lib.find_context_by_opaque group1 with
        | .error faults => some (failure (faults ++ ["context not found!"]), lib)
        | .ok ctx =>
          match lib.context_new_group ctx new with
          | none => none
          | some lib =>
            match lib.fill_group operation grp1 grp2 new.address with
            | none => none
            | some lib =>
              some (success (OPAQUE_GENERATE (OPAQUE_GET_CONTEXT_KEY group1) (lib.opaque_key new.address)), lib)

def PWR_GrpUnion := group_operation group_union

def PWR_GrpIntersection := group_operation group_intersection

def PWR_GrpDifference := group_operation group_difference

def PWR_GrpSymDifference := group_operation group_sym_difference

end Library

/-- The calls that make groups or change their members. -/
inductive GroupCall where
  | Create (context : UInt64) (new : Alloc)
  | Duplicate (group1 : UInt64) (new : Alloc)
  | AddObj (group object : UInt64)
  | RemoveObj (group object : UInt64)
  | Union (group1 group2 : UInt64) (new : Alloc)
  | Intersection (group1 group2 : UInt64) (new : Alloc)
  | Difference (group1 group2 : UInt64) (new : Alloc)
  | SymDifference (group1 group2 : UInt64) (new : Alloc)

/-- The record that a call allocates. -/
def GroupCall.new : GroupCall → Option Alloc
  | .Create _ new | .Duplicate _ new | .Union _ _ new | .Intersection _ _ new
  | .Difference _ _ new | .SymDifference _ _ new => some new
  | .AddObj _ _ | .RemoveObj _ _ => none

def GroupCall.perform [GSequence] : GroupCall → Library → Option (Reply × Library)
  | .Create context new => Library.PWR_GrpCreate context new
  | .Duplicate group1 new => Library.PWR_GrpDuplicate group1 new
  | .AddObj group object => Library.PWR_GrpAddObj group object
  | .RemoveObj group object => Library.PWR_GrpRemoveObj group object
  | .Union group1 group2 new => Library.PWR_GrpUnion group1 group2 new
  | .Intersection group1 group2 new => Library.PWR_GrpIntersection group1 group2 new
  | .Difference group1 group2 new => Library.PWR_GrpDifference group1 group2 new
  | .SymDifference group1 group2 new => Library.PWR_GrpSymDifference group1 group2 new

end pwrapi
