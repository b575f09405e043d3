import PowerApi.Api.Library

namespace pwrapi

namespace Library

/-- `new_group`. The opaque map always gives a key. -/
def new_group (lib : Library) (new : Alloc) : Option Library :=
  match opaque_map_insert .GROUP new.address new.draws lib.opaque_map with
  | some (_, [], map) => some { lib with opaque_map := map, groups := lib.groups.insert new.address {} }
  | _ => none

def context_new_group (lib : Library) (context : Nat) (new : Alloc) : Option Library :=
  match lib.new_group new, lib.contexts.lookup context with
  | some lib, some ctx =>
    some { lib with
      contexts := lib.contexts.insert context { ctx with group_list := new.address :: ctx.group_list },
      groups := lib.groups.insert new.address { context_key := lib.opaque_key context } }
  | _, _ => none

/-- `stat_invalidate_callback`. The thread is stopped before the handles are cleared. -/
def stat_invalidate_callback (lib : Library) (stat : Nat) : Option Library :=
  match lib.stats.lookup stat with
  | none => none
  | some s => some { lib with stats := lib.stats.insert stat { s with thread := false, obj := 0, grp := 0 } }

/-- `group_invalidate_statistics`. The list is freed and the group's pointer to it stays. -/
def group_invalidate_statistics (lib : Library) (group : Nat) : Option Library :=
  match lib.groups.lookup group with
  | none => none
  | some g =>
    match g.stat_list with
    | .freed => none
    | .nodes [] => some lib
    | .nodes stats =>
      match stats.foldlM stat_invalidate_callback lib with
      | none => none
      | some lib => some { lib with groups := lib.groups.insert group { g with stat_list := .freed } }

def del_group (lib : Library) (group : Nat) : Option Library :=
  match lib.group_invalidate_statistics group with
  | none => none
  | some lib =>
    let map := if lib.opaque_key group ≠ 0 then (opaque_map_remove lib.opaque_map (lib.opaque_key group)).2
               else lib.opaque_map
    some { lib with opaque_map := map, groups := lib.groups.erase group }

def context_del_group (lib : Library) (context group : Nat) : Option Library :=
  match lib.contexts.lookup context with
  | none => none
  | some ctx =>
    if group ∈ ctx.group_list then
      { lib with contexts := lib.contexts.insert context
                  { ctx with group_list := ctx.group_list.erase group } }.del_group group
    else none

/-- `group_copy`: the objects are appended one by one. -/
def group_copy (lib : Library) (src dst : Nat) : Option Library :=
  match lib.groups.lookup src, lib.groups.lookup dst with
  | some g1, some g2 =>
    some { lib with groups := lib.groups.insert dst { g2 with list := g2.list ++ g1.list } }
  | _, _ => none

section Sequence

variable [GSequence]

def group_insert_obj (lib : Library) (group obj : Nat) : Option Library :=
  match lib.groups.lookup group with
  | none => none
  | some g =>
    match g_sequence_lookup g.list obj with
    | some _ => some lib
    | none =>
      match lib.group_invalidate_statistics group with
      | none => none
      | some lib =>
        match lib.groups.lookup group with
        | none => none
        | some g =>
          some { lib with groups := lib.groups.insert group
                            { g with list := g_sequence_insert_sorted g.list obj } }

def group_remove_obj (lib : Library) (group obj : Nat) : Option Library :=
  match lib.groups.lookup group with
  | none => none
  | some g =>
    match g_sequence_lookup g.list obj with
    | none => some lib
    | some iter =>
      match lib.group_invalidate_statistics group with
      | none => none
      | some lib =>
        match lib.groups.lookup group with
        | none => none
        | some g =>
          some { lib with groups := lib.groups.insert group { g with list := g.list.eraseIdx iter } }

end Sequence

end Library

/-- The loops over two groups: the parallel walk, then the rest of the group that is not at
its end. The flags say which of the three branches append, and so which rests are appended. -/
def group_walk (first both second : Bool) (list : List Nat) : List Nat → List Nat → List Nat
  | [], rest2 => if second then list ++ rest2 else list
  | rest1, [] => if first then list ++ rest1 else list
  | obj1 :: rest1, obj2 :: rest2 =>
    if group_compare_obj obj1 obj2 = -1 then
      group_walk first both second (if first then list ++ [obj1] else list) rest1 (obj2 :: rest2)
    else if group_compare_obj obj1 obj2 = 0 then
      group_walk first both second (if both then list ++ [obj1] else list) rest1 rest2
    else
      group_walk first both second (if second then list ++ [obj2] else list) (obj1 :: rest1) rest2
termination_by rest1 rest2 => rest1.length + rest2.length

def group_union (list1 list2 union_list : List Nat) : List Nat :=
  group_walk true true true union_list list1 list2

def group_intersection (list1 list2 inter_list : List Nat) : List Nat :=
  group_walk false true false inter_list list1 list2

def group_difference (list1 list2 diff_list : List Nat) : List Nat :=
  group_walk true false false diff_list list1 list2

def group_sym_difference (list1 list2 diff_list : List Nat) : List Nat :=
  group_walk true false true diff_list list1 list2

end pwrapi
