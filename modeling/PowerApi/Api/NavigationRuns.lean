import PowerApi.Api.GroupSets
import PowerApi.Api.Navigation

open Execution HashTable

namespace pwrapi

/-- The navigation calls. Those on the context itself are made with its own handle. -/
inductive NavCall where
  | EntryPoint
  | GetParent (object : UInt64)
  | GetChildren (object : UInt64) (new : Alloc)
  | GetObjByIndx (group : UInt64) (index : Int)
  | GetGrpByName (name : Option String) (new : Alloc)

def NavCall.new : NavCall → Option Alloc
  | .GetChildren _ new | .GetGrpByName _ new => some new
  | .EntryPoint | .GetParent _ | .GetObjByIndx _ _ => none

/-- The library with the object and group handles reached so far. -/
structure Navigation where
  lib : Library
  objects : List UInt64 := []
  groups : List UInt64 := []

namespace Navigation

/-- The call is made with handles that were reached. -/
def Reached (nav : Navigation) : NavCall → Prop
  | .GetParent object | .GetChildren object _ => object ∈ nav.objects
  | .GetObjByIndx group _ => group ∈ nav.groups
  | .EntryPoint | .GetGrpByName _ _ => True

instance (nav : Navigation) : (call : NavCall) → Decidable (nav.Reached call)
  | .GetParent object | .GetChildren object _ => inferInstanceAs (Decidable (object ∈ nav.objects))
  | .GetObjByIndx group _ => inferInstanceAs (Decidable (group ∈ nav.groups))
  | .EntryPoint | .GetGrpByName _ _ => .isTrue trivial

/-- The handle of a context. -/
def context_handle (lib : Library) (ctx : Nat) : UInt64 :=
  OPAQUE_GENERATE (lib.opaque_key ctx) (lib.opaque_key ctx)

/-- An object handle is reached by a call that succeeds. -/
def reach_object (nav : Navigation) (reply : Reply) : Navigation :=
  if reply.status = PWR_RET_SUCCESS then { nav with objects := reply.handle :: nav.objects } else nav

def reach_group (nav : Navigation) (reply : Reply) (lib : Library) : Navigation :=
  if reply.status = PWR_RET_SUCCESS then { nav with lib, groups := reply.handle :: nav.groups }
  else { nav with lib }

/-- A navigation call from the context `ctx`. -/
def perform [GSequence] (ctx : Nat) (call : NavCall) (nav : Navigation) : Option (Reply × Navigation) :=
  match call with
  | .EntryPoint =>
    (nav.lib.PWR_CntxtGetEntryPoint (context_handle nav.lib ctx)).map fun reply => (reply, nav.reach_object reply)
  | .GetParent object =>
    (nav.lib.PWR_ObjGetParent object).map fun reply => (reply, nav.reach_object reply)
  | .GetChildren object new =>
    (nav.lib.PWR_ObjGetChildren object new).map fun (reply, lib) => (reply, nav.reach_group reply lib)
  | .GetObjByIndx group index =>
    (nav.lib.PWR_GrpGetObjByIndx group index).map fun reply => (reply, nav.reach_object reply)
  | .GetGrpByName name new =>
    (nav.lib.PWR_CntxtGetGrpByName (context_handle nav.lib ctx) name new).map fun (reply, lib) =>
      (reply, nav.reach_group reply lib)

end Navigation

/-- A step of the runs from the context `ctx`. -/
def NavStep [GSequence] (ctx : Nat) (nav : Navigation) (step : NavCall × Reply) (nav' : Navigation) : Prop :=
  nav.Reached step.1 ∧ (∀ new ∈ step.1.new, nav.lib.Unused new.address) ∧
    Navigation.perform ctx step.1 nav = some (step.2, nav')

/-- The context-checked calls find the context `ctx` with the handles that were reached. -/
structure InContext [GSequence] (ctx : Nat) (nav : Navigation) : Prop where
  keys : ∀ handle ∈ nav.objects ++ nav.groups, OPAQUE_GET_CONTEXT_KEY handle = nav.lib.opaque_key ctx
  found : ∀ handle ∈ nav.objects ++ nav.groups,
    nav.lib.opaque_map_lookup_context (OPAQUE_GET_CONTEXT_KEY handle) = some ctx
  members : ∀ group ∈ nav.groups, ∀ object ∈ nav.objects,
    ∃ grp obj, nav.lib.find_member group object = some (.ok (grp, obj))
  children : ∀ object ∈ nav.objects, ∃ obj, ∀ new, nav.lib.PWR_ObjGetChildren object new =
    nav.lib.obj_get_children ctx obj (nav.lib.opaque_key ctx) new
  set_value : ∀ object ∈ nav.objects, ∃ obj, ∀ attr_set_value,
    nav.lib.PWR_ObjAttrSetValue object attr_set_value = nav.lib.obj_attr_set_value attr_set_value obj

/-- The node above the node of an object. -/
def Library.parent_node (lib : Library) (object : UInt64) : Option Nat :=
  (lib.opaque_map_lookup_object (OPAQUE_GET_DATA_KEY object)).bind fun obj =>
    (lib.objects.lookup obj).bind fun o =>
      o.gnode.bind fun node =>
        (lib.gnodes.lookup node).bind GNode.parent

/-- No object but a root is asked for its parent. -/
def NavCall.NoParent (nav : Navigation) : NavCall → Prop
  | .GetParent object => nav.lib.parent_node object = none
  | _ => True

instance (nav : Navigation) : (call : NavCall) → Decidable (call.NoParent nav)
  | .GetParent object => inferInstanceAs (Decidable (nav.lib.parent_node object = none))
  | .EntryPoint | .GetChildren _ _ | .GetObjByIndx _ _ | .GetGrpByName _ _ => .isTrue trivial

/-- The nodes of the trees hold allocated objects. -/
def Library.TreesOfObjects (lib : Library) : Prop :=
  ∀ node gnode, lib.gnodes.lookup node = some gnode → gnode.data ∈ lib.objects

/-- The invariant of the navigation: each handle is made of the context's key and its record's. -/
structure Led (ctx : Nat) (nav : Navigation) : Prop where
  tidy : nav.lib.GroupsOnly
  trees : nav.lib.TreesOfObjects
  context : ctx ∈ nav.lib.contexts
  members : ∀ grp g, nav.lib.groups.lookup grp = some g → ∀ obj ∈ g.list, obj ∈ nav.lib.objects
  objects : ∀ handle ∈ nav.objects, ∃ obj, obj ∈ nav.lib.objects ∧
    handle = OPAQUE_GENERATE (nav.lib.opaque_key ctx) (nav.lib.opaque_key obj)
  groups : ∀ handle ∈ nav.groups, ∃ grp g, nav.lib.groups.lookup grp = some g ∧
    g.context_key = nav.lib.opaque_key ctx ∧
    handle = OPAQUE_GENERATE (nav.lib.opaque_key ctx) (nav.lib.opaque_key grp)

variable {ctx : Nat} {nav nav' : Navigation} {handle : UInt64}

section Handles

variable {lib : Library} {obj grp : Nat} {g : Group}

/-- A handle made of the keys of a context and a record leads back to both. -/
theorem Library.WellFormed.unpack (hwf : lib.WellFormed) (type : OpaqueType) {record : Nat}
    (hctx : ctx ∈ lib.contexts) (hrecord : lib.Live type record) :
    OPAQUE_GET_CONTEXT_KEY (OPAQUE_GENERATE (lib.opaque_key ctx) (lib.opaque_key record)) = lib.opaque_key ctx ∧
      OPAQUE_GET_DATA_KEY (OPAQUE_GENERATE (lib.opaque_key ctx) (lib.opaque_key record)) = lib.opaque_key record :=
  ⟨OPAQUE_GET_CONTEXT_KEY_generate (hwf.keyed .CONTEXT ctx hctx).range (hwf.keyed type record hrecord).range,
    OPAQUE_GET_DATA_KEY_generate (hwf.keyed .CONTEXT ctx hctx).range (hwf.keyed type record hrecord).range⟩

end Handles

theorem Led.object_key (hled : Led ctx nav) (h : handle ∈ nav.objects) :
    ∃ obj, obj ∈ nav.lib.objects ∧ OPAQUE_GET_CONTEXT_KEY handle = nav.lib.opaque_key ctx ∧
      OPAQUE_GET_DATA_KEY handle = nav.lib.opaque_key obj ∧
      nav.lib.opaque_map_lookup_object (OPAQUE_GET_DATA_KEY handle) = some obj := by
  obtain ⟨obj, hobj, rfl⟩ := hled.objects handle h
  obtain ⟨hcontext, hdata⟩ := hled.tidy.wf.unpack .OBJECT hled.context hobj
  refine ⟨obj, hobj, hcontext, hdata, ?_⟩
  rw [hdata]
  exact (hled.tidy.wf.keyed .OBJECT obj hobj).found

theorem Led.group_key (hled : Led ctx nav) (h : handle ∈ nav.groups) :
    ∃ grp, OPAQUE_GET_CONTEXT_KEY handle = nav.lib.opaque_key ctx ∧
      nav.lib.find_group_by_opaque handle = some (.ok grp) := by
  obtain ⟨grp, g, hg, hhome, rfl⟩ := hled.groups handle h
  have hlive : nav.lib.Live .GROUP grp := Finmap.mem_of_lookup_eq_some hg
  obtain ⟨hcontext, hdata⟩ := hled.tidy.wf.unpack .GROUP hled.context hlive
  refine ⟨grp, hcontext, Library.find_group_by_opaque_ok.mpr ⟨?_, g, hg, hcontext.trans hhome.symm⟩⟩
  rw [hdata]
  exact (hled.tidy.wf.keyed .GROUP grp hlive).found

theorem Led.inContext [GSequence] (hled : Led ctx nav) : InContext ctx nav := by
  have hkeys : ∀ handle ∈ nav.objects ++ nav.groups, OPAQUE_GET_CONTEXT_KEY handle = nav.lib.opaque_key ctx := by
    intro handle h
    rcases List.mem_append.mp h with h | h
    · obtain ⟨obj, -, hcontext, -⟩ := hled.object_key h
      exact hcontext
    · obtain ⟨grp, hcontext, -⟩ := hled.group_key h
      exact hcontext
  have hfound : nav.lib.opaque_map_lookup_context (nav.lib.opaque_key ctx) = some ctx :=
    (hled.tidy.wf.keyed .CONTEXT ctx hled.context).found
  refine ⟨hkeys, fun handle h => by rw [hkeys handle h, hfound], fun group hgroup object hobject => ?_,
    fun object hobject => ?_, fun object hobject => ?_⟩
  · obtain ⟨obj, -, hcontext, -, hobj⟩ := hled.object_key hobject
    obtain ⟨grp, hcontext', hgrp⟩ := hled.group_key hgroup
    refine ⟨grp, obj, ?_⟩
    simp [Library.find_member, hcontext, hcontext', hgrp, hobj]
  · obtain ⟨obj, -, hcontext, -, hobj⟩ := hled.object_key hobject
    exact ⟨obj, fun new => by simp only [Library.PWR_ObjGetChildren, hcontext, hfound, hobj]⟩
  · obtain ⟨obj, -, hcontext, -, hobj⟩ := hled.object_key hobject
    exact ⟨obj, fun f => by simp only [Library.PWR_ObjAttrSetValue, hcontext, hfound, hobj]⟩

section Fill

open Library

variable {lib lib1 lib2 : Library} {new : Alloc} {list : List Nat} {reply : Reply}

/-- A new group of the context with allocated objects, and nothing else. -/
structure Populated (lib : Library) (ctx : Nat) (new : Alloc) (lib' : Library) : Prop where
  made : ∃ list : List Nat, GroupMade lib ctx new list lib' ∧ list.Pairwise (· < ·) ∧ ∀ obj ∈ list, obj ∈ lib.objects

variable [GSequence]

theorem Populated.insert (hpop : Populated lib ctx new lib1) (htidy : lib.GroupsOnly) {obj : Nat}
    (hobj : obj ∈ lib.objects) (h : lib1.group_insert_obj new.address obj = some lib2) :
    Populated lib ctx new lib2 := by
  obtain ⟨list, hmade, hsorted, hobjects⟩ := hpop.made
  have hwalk := (hmade.groupsOnly htidy hsorted).invalidate hmade.lookup_new
  simp only [group_insert_obj, hmade.lookup_new, hwalk] at h
  cases hfound : g_sequence_lookup list obj with
  | some iter =>
    simp only [hfound, Option.some.injEq] at h
    exact h ▸ hpop
  | none =>
    simp only [hfound, Option.some.injEq] at h
    have hnew := GSequence.lookup_none (sequence_sorted hsorted) hfound
    refine ⟨g_sequence_insert_sorted list obj, hmade.fill h.symm, (insert_sorted_spec hsorted hnew).1, fun x hx => ?_⟩
    rcases List.mem_cons.mp ((GSequence.insert_perm list obj (sequence_sorted hsorted)).mem_iff.mp hx) with rfl | hx
    · exact hobj
    · exact hobjects x hx

theorem Populated.children (htidy : lib.GroupsOnly) (htrees : lib.TreesOfObjects) {nodes : List Nat}
    (hpop : Populated lib ctx new lib1)
    (h : nodes.foldlM (group_insert_callback new.address) lib1 = some lib2) : Populated lib ctx new lib2 := by
  induction nodes generalizing lib1 with
  | nil => exact Option.some.inj h ▸ hpop
  | cons node rest ih =>
    rw [List.foldlM_cons] at h
    obtain ⟨lib3, hone, hrest⟩ := Option.bind_eq_some_iff.mp h
    obtain ⟨list, hmade, -⟩ := hpop.made
    unfold group_insert_callback at hone
    rw [hmade.gnodes] at hone
    split at hone
    · cases hone
    · next gnode hgnode => exact ih (hpop.insert htidy (htrees node gnode hgnode) hone) hrest

theorem Populated.named (htidy : lib.GroupsOnly) {type : PwrObjType} {objs : List Nat}
    (hpop : Populated lib ctx new lib1)
    (h : objs.foldlM (populate_named_group new.address type) lib1 = some lib2) : Populated lib ctx new lib2 := by
  induction objs generalizing lib1 with
  | nil => exact Option.some.inj h ▸ hpop
  | cons obj rest ih =>
    rw [List.foldlM_cons] at h
    obtain ⟨lib3, hone, hrest⟩ := Option.bind_eq_some_iff.mp h
    obtain ⟨list, hmade, -⟩ := hpop.made
    unfold populate_named_group at hone
    rw [hmade.objects] at hone
    split at hone
    · cases hone
    · next o ho =>
      split at hone
      · exact ih (hpop.insert htidy (Finmap.mem_of_lookup_eq_some ho) hone) hrest
      · exact ih (Option.some.inj hone ▸ hpop) hrest

/-- A call that reaches a group fails and does nothing, or makes the group and returns its handle. -/
def ReachesGroup (lib : Library) (ctx : Nat) (new : Alloc) (reply : Reply) (lib' : Library) : Prop :=
  reply.status ≠ PWR_RET_SUCCESS ∧ lib' = lib ∨
  Populated lib ctx new lib' ∧ reply.handle = OPAQUE_GENERATE (lib.opaque_key ctx) (lib'.opaque_key new.address)

theorem obj_get_children_spec {obj : Nat} (htidy : lib.GroupsOnly) (htrees : lib.TreesOfObjects)
    (hunused : lib.Unused new.address)
    (h : obj_get_children ctx obj (lib.opaque_key ctx) new lib = some (reply, lib2)) :
    ReachesGroup lib ctx new reply lib2 := by
  unfold obj_get_children at h
  split at h
  · cases h
  split at h
  · obtain ⟨rfl, rfl⟩ := Prod.mk.inj (Option.some.inj h)
    exact Or.inl ⟨by decide, rfl⟩
  split at h
  · cases h
  split at h
  · obtain ⟨rfl, rfl⟩ := Prod.mk.inj (Option.some.inj h)
    exact Or.inl ⟨by decide, rfl⟩
  split at h
  · cases h
  next lib1 hnew =>
  split at h
  · cases h
  next lib3 hfold =>
  obtain ⟨rfl, rfl⟩ := Prod.mk.inj (Option.some.inj h)
  have hmade := context_new_group_made htidy.wf hunused hnew
  have hpop : Populated lib ctx new lib1 := ⟨[], hmade, List.Pairwise.nil, fun _ hx => absurd hx List.not_mem_nil⟩
  exact Or.inr ⟨hpop.children htidy htrees hfold, rfl⟩

theorem PWR_CntxtGetGrpByName_spec {name : Option String} (htidy : lib.GroupsOnly) (hctx : ctx ∈ lib.contexts)
    (hunused : lib.Unused new.address)
    (h : PWR_CntxtGetGrpByName (Navigation.context_handle lib ctx) name new lib = some (reply, lib2)) :
    ReachesGroup lib ctx new reply lib2 := by
  have hsame : ∀ {r : Reply}, r.status ≠ PWR_RET_SUCCESS → some (r, lib) = some (reply, lib2) →
      ReachesGroup lib ctx new reply lib2 := by
    intro r hr heq
    obtain ⟨rfl, rfl⟩ := Prod.mk.inj (Option.some.inj heq)
    exact Or.inl ⟨hr, rfl⟩
  unfold PWR_CntxtGetGrpByName at h
  split at h
  · exact hsame (failure_status_ne _) h
  split at h
  · exact hsame (show (4 : Int) ≠ 0 by decide) h
  split at h
  · exact hsame (failure_status_ne _) h
  split at h
  · exact hsame (failure_status_ne _) h
  next found hfound =>
  have hsame_ctx : found = ctx := by
    obtain ⟨hlive, hkey⟩ := htidy.wf.find_context_ok hfound
    have hctx_found := (htidy.wf.keyed .CONTEXT ctx hctx).lookup
    rw [Navigation.context_handle, (htidy.wf.unpack .CONTEXT hctx hctx).1] at hkey
    rw [hkey, (htidy.wf.keyed .CONTEXT found hlive).lookup] at hctx_found
    exact Option.some.inj hctx_found
  subst hsame_ctx
  split at h
  · cases h
  next lib1 hnew =>
  split at h
  · cases h
  split at h
  · cases h
  next lib3 hfold =>
  obtain ⟨rfl, rfl⟩ := Prod.mk.inj (Option.some.inj h)
  have hmade := context_new_group_made htidy.wf hunused hnew
  have hpop : Populated lib found new lib1 := ⟨[], hmade, List.Pairwise.nil, fun _ hx => absurd hx List.not_mem_nil⟩
  have hpop' := hpop.named htidy hfold
  refine Or.inr ⟨hpop', ?_⟩
  obtain ⟨list, hmade', -⟩ := hpop'.made
  have hne : found ≠ new.address := by
    rintro rfl
    exact hunused .CONTEXT hctx
  rw [show lib3.opaque_key found = lib.opaque_key found from congrArg OpaqueRef.key (hmade'.refs found hne)]
  rfl

/-- A call that reaches an object fails, or returns the object's handle under the context's key. -/
def ReachesObject (lib : Library) (ctx : Nat) (reply : Reply) : Prop :=
  reply.status ≠ PWR_RET_SUCCESS ∨
  ∃ obj, obj ∈ lib.objects ∧ reply.handle = OPAQUE_GENERATE (lib.opaque_key ctx) (lib.opaque_key obj)

omit [GSequence] in
theorem PWR_CntxtGetEntryPoint_spec (hwf : lib.WellFormed) (hctx : ctx ∈ lib.contexts)
    (h : lib.PWR_CntxtGetEntryPoint (Navigation.context_handle lib ctx) = some reply) :
    ReachesObject lib ctx reply := by
  obtain ⟨hcontext, hdata⟩ := hwf.unpack .CONTEXT hctx hctx
  have hfound : lib.opaque_map_lookup_context (lib.opaque_key ctx) = some ctx := (hwf.keyed .CONTEXT ctx hctx).found
  simp only [PWR_CntxtGetEntryPoint, Navigation.context_handle, hcontext, hdata, hfound, ne_eq, not_true_eq_false,
    if_false] at h
  split at h
  · cases h
  split at h
  · exact Or.inl (Option.some.inj h ▸ failure_status_ne _)
  split at h
  · cases h
  next gnode hgnode =>
  split at h
  · next hobj => exact Or.inr ⟨gnode.data, hobj, (congrArg Reply.handle (Option.some.inj h)).symm⟩
  · cases h

end Fill

theorem Led.getObjByIndx (hled : Led ctx nav) {index : Int} {reply : Reply} (hhandle : handle ∈ nav.groups)
    (h : nav.lib.PWR_GrpGetObjByIndx handle index = some reply) : ReachesObject nav.lib ctx reply := by
  obtain ⟨grp, hcontext, hgrp⟩ := hled.group_key hhandle
  unfold Library.PWR_GrpGetObjByIndx at h
  rw [hgrp, hcontext] at h
  split at h
  · exact Or.inl (Option.some.inj h ▸ show (-10 : Int) ≠ 0 by decide)
  simp only at h
  split at h
  · cases h
  split at h
  · exact Or.inl (Option.some.inj h ▸ show (-14 : Int) ≠ 0 by decide)
  next obj hobj =>
  split at h
  · next hlive => exact Or.inr ⟨obj, hlive, (congrArg Reply.handle (Option.some.inj h)).symm⟩
  · cases h

/-- The parent's handle carries the key of the object that was asked. -/
theorem PWR_ObjGetParent_cases {lib : Library} {object : UInt64} {reply : Reply}
    (h : lib.PWR_ObjGetParent object = some reply) :
    lib.parent_node object = none ∧ reply.status ≠ PWR_RET_SUCCESS ∨
    lib.parent_node object ≠ none ∧ reply.status = PWR_RET_SUCCESS ∧
      ∃ obj, obj ∈ lib.objects ∧
        reply.handle = OPAQUE_GENERATE (OPAQUE_GET_DATA_KEY object) (lib.opaque_key obj) := by
  simp only [Library.PWR_ObjGetParent] at h
  unfold Library.parent_node
  split at h
  · next hobj =>
    rw [hobj]
    exact Or.inl ⟨rfl, Option.some.inj h ▸ Library.failure_status_ne _⟩
  next obj hobj =>
  rw [hobj, Option.bind_some]
  split at h
  · cases h
  next o ho =>
  rw [ho, Option.bind_some]
  split at h
  · next hnode =>
    rw [hnode]
    exact Or.inl ⟨rfl, Option.some.inj h ▸ Library.failure_status_ne _⟩
  next node hnode =>
  rw [hnode, Option.bind_some]
  split at h
  · cases h
  next gnode hgnode =>
  rw [hgnode, Option.bind_some]
  split at h
  · next hparent => exact Or.inl ⟨hparent, Option.some.inj h ▸ show (1 : Int) ≠ 0 by decide⟩
  next parent hparent =>
  split at h
  · cases h
  next parent_node hparent_node =>
  split at h
  · next hlive =>
    obtain rfl := Option.some.inj h
    exact Or.inr ⟨by simp [hparent], rfl, parent_node.data, hlive, rfl⟩
  · cases h

theorem Led.reach_object (hled : Led ctx nav) {reply : Reply} (h : ReachesObject nav.lib ctx reply) :
    Led ctx (nav.reach_object reply) := by
  unfold Navigation.reach_object
  split
  · next hstatus =>
    refine ⟨hled.tidy, hled.trees, hled.context, hled.members, fun handle hhandle => ?_, hled.groups⟩
    rcases List.mem_cons.mp hhandle with rfl | hhandle
    · exact h.resolve_left (not_not.mpr hstatus)
    · exact hled.objects handle hhandle
  · exact hled

theorem Led.reach_group (hled : Led ctx nav) {new : Alloc} {reply : Reply} {lib' : Library}
    (h : ReachesGroup nav.lib ctx new reply lib') : Led ctx (nav.reach_group reply lib') := by
  unfold Navigation.reach_group
  rcases h with ⟨hstatus, rfl⟩ | ⟨hpop, hhandle⟩
  · rw [if_neg hstatus]
    exact hled
  · obtain ⟨list, hmade, hsorted, hlist⟩ := hpop.made
    have hkey : ∀ type {r}, nav.lib.Live type r → lib'.opaque_key r = nav.lib.opaque_key r := by
      intro type r hr
      have hne : r ≠ new.address := by
        rintro rfl
        exact hmade.unused type hr
      exact congrArg OpaqueRef.key (hmade.refs r hne)
    have hctx := hkey .CONTEXT hled.context
    have hled' : Led ctx { nav with lib := lib' } := by
      refine ⟨hmade.groupsOnly hled.tidy hsorted, ?_, (hmade.contexts ctx).mpr hled.context, fun grp g hg => ?_,
        fun handle h => ?_, fun handle h => ?_⟩
      · intro node gnode hgnode
        rw [hmade.gnodes] at hgnode
        rw [hmade.objects]
        exact hled.trees node gnode hgnode
      · rw [hmade.groups, lookup_insert_eq_ite] at hg
        rw [hmade.objects]
        split at hg
        · obtain rfl := Option.some.inj hg
          exact hlist
        · exact hled.members grp g hg
      · obtain ⟨obj, hobj, rfl⟩ := hled.objects handle h
        exact ⟨obj, by rwa [hmade.objects], by rw [hctx, hkey .OBJECT hobj]⟩
      · obtain ⟨grp, g, hg, hhome, rfl⟩ := hled.groups handle h
        have hlive : nav.lib.Live .GROUP grp := Finmap.mem_of_lookup_eq_some hg
        exact ⟨grp, g, by rw [hmade.lookup_other (hmade.ne_of_lookup hg), hg], by rw [hhome, hctx],
          by rw [hctx, hkey .GROUP hlive]⟩
    split
    · refine ⟨hled'.tidy, hled'.trees, hled'.context, hled'.members, hled'.objects, fun handle h => ?_⟩
      rcases List.mem_cons.mp h with rfl | h
      · exact ⟨new.address, _, hmade.lookup_new, hctx.symm, by rw [hhandle, hctx]⟩
      · exact hled'.groups handle h
    · exact hled'

section Runs

variable [GSequence]

/-- A step leads on in the context, unless it asks an object below another for its parent: then
the handle that it returns carries another key. -/
theorem Led.step {step : NavCall × Reply} (hled : Led ctx nav) (h : NavStep ctx nav step nav') :
    step.1.NoParent nav ∧ Led ctx nav' ∨ ¬ step.1.NoParent nav ∧ ¬ InContext ctx nav' := by
  obtain ⟨call, reply⟩ := step
  obtain ⟨hreached, hunused, hperform⟩ := h
  cases call with
  | EntryPoint =>
    obtain ⟨reply', hreply, heq⟩ := Option.map_eq_some_iff.mp hperform
    obtain ⟨rfl, rfl⟩ := Prod.mk.inj heq
    exact Or.inl ⟨trivial, hled.reach_object (PWR_CntxtGetEntryPoint_spec hled.tidy.wf hled.context hreply)⟩
  | GetParent object =>
    obtain ⟨reply', hreply, heq⟩ := Option.map_eq_some_iff.mp hperform
    obtain ⟨rfl, rfl⟩ := Prod.mk.inj heq
    rcases PWR_ObjGetParent_cases hreply with ⟨hroot, hstatus⟩ | ⟨hparent, hstatus, parent, hlive, hhandle⟩
    · exact Or.inl ⟨hroot, hled.reach_object (Or.inl hstatus)⟩
    · refine Or.inr ⟨hparent, fun hin => ?_⟩
      obtain ⟨obj, hobj, -, hdata, -⟩ := hled.object_key hreached
      have hkeys := hin.keys reply'.handle (by simp [Navigation.reach_object, hstatus])
      have hlib : (nav.reach_object reply').lib = nav.lib := by
        unfold Navigation.reach_object
        split <;> rfl
      have hobj_keyed := hled.tidy.wf.keyed .OBJECT obj hobj
      rw [hlib, hhandle, hdata, OPAQUE_GET_CONTEXT_KEY_generate hobj_keyed.range
        (hled.tidy.wf.keyed .OBJECT parent hlive).range] at hkeys
      have hlookup := hobj_keyed.lookup
      rw [hkeys, (hled.tidy.wf.keyed .CONTEXT ctx hled.context).lookup] at hlookup
      obtain rfl := Option.some.inj hlookup
      cases hled.tidy.wf.type_unique (show nav.lib.Live .OBJECT _ from hobj)
        (show nav.lib.Live .CONTEXT _ from hled.context)
  | GetChildren object new =>
    obtain ⟨⟨reply', lib'⟩, hreply, heq⟩ := Option.map_eq_some_iff.mp hperform
    obtain ⟨rfl, rfl⟩ := Prod.mk.inj heq
    obtain ⟨obj, hchildren⟩ := hled.inContext.children object hreached
    rw [hchildren new] at hreply
    exact Or.inl ⟨trivial, hled.reach_group (obj_get_children_spec hled.tidy hled.trees (hunused new rfl) hreply)⟩
  | GetObjByIndx group index =>
    obtain ⟨reply', hreply, heq⟩ := Option.map_eq_some_iff.mp hperform
    obtain ⟨rfl, rfl⟩ := Prod.mk.inj heq
    exact Or.inl ⟨trivial, hled.reach_object (hled.getObjByIndx hreached hreply)⟩
  | GetGrpByName name new =>
    obtain ⟨⟨reply', lib'⟩, hreply, heq⟩ := Option.map_eq_some_iff.mp hperform
    obtain ⟨rfl, rfl⟩ := Prod.mk.inj heq
    exact Or.inl ⟨trivial,
      hled.reach_group (PWR_CntxtGetGrpByName_spec hled.tidy hled.context (hunused new rfl) hreply)⟩

/-- The handles reached from a context lead back to it exactly in the runs that ask no object
but a root for its parent. -/
theorem handles_in_context_iff {lib : Library} {run : List ((NavCall × Reply) × Navigation)}
    (hwf : lib.WellFormed) (hgroups : lib.groups = ∅) (htrees : lib.TreesOfObjects) (hctx : ctx ∈ lib.contexts)
    (hrun : EachStep (NavStep ctx) { lib } run) :
    (∀ x ∈ run, InContext ctx x.2) ↔ EachStep (fun nav step _ => step.1.NoParent nav) { lib } run := by
  have hled : Led ctx { lib } := by
    refine ⟨Library.GroupsOnly.of_empty hwf hgroups, htrees, hctx, fun grp g hg => ?_,
      fun _ h => absurd h List.not_mem_nil,
      fun _ h => absurd h List.not_mem_nil⟩
    rw [hgroups] at hg
    cases hg
  rw [forall_mem_iff_eachStep (P := InContext ctx) (s := { lib })]
  refine hrun.iff_of_invariant hled ?_ ?_
  · intro nav step nav' hstep hled hroot
    rcases hled.step hstep with ⟨-, hled'⟩ | ⟨hparent, -⟩
    · exact hled'
    · exact absurd hroot hparent
  · intro nav step nav' hstep hled
    rcases hled.step hstep with ⟨hroot, hled'⟩ | ⟨hparent, hout⟩
    · exact iff_of_true hled'.inContext hroot
    · exact iff_of_false hout hparent

end Runs

/-- From the entry point to its children, the first of them and the sockets by name. -/
def downward_calls : List NavCall :=
  [.EntryPoint, .GetChildren (OPAQUE_GENERATE 5 6) ⟨100, [8]⟩, .GetObjByIndx (OPAQUE_GENERATE 5 8) 0,
   .GetParent (OPAQUE_GENERATE 5 6), .GetGrpByName (some "all_socket") ⟨101, [9]⟩]

/-- The socket is asked for its parent. -/
def upward_calls : List NavCall :=
  [.EntryPoint, .GetChildren (OPAQUE_GENERATE 5 6) ⟨100, [8]⟩, .GetObjByIndx (OPAQUE_GENERATE 5 8) 0,
   .GetParent (OPAQUE_GENERATE 5 7)]

def nav_calls_run (calls : List NavCall) : List ((NavCall × Reply) × Navigation) :=
  run_calls (@Navigation.perform ordered_sequence 1) calls { lib := Library.node_with_socket }

theorem nav_calls_run_steps (calls : List NavCall)
    (hreached : EachStep (fun nav step _ => nav.Reached step.1 ∧ ∀ new ∈ step.1.new, nav.lib.Unused new.address)
      { lib := Library.node_with_socket } (nav_calls_run calls)) :
    EachStep (@NavStep ordered_sequence 1) { lib := Library.node_with_socket } (nav_calls_run calls) := by
  have hcalls := eachStep_run_calls (@Navigation.perform ordered_sequence 1) { lib := Library.node_with_socket } calls
  exact (hreached.and hcalls).imp fun _ _ _ h => ⟨h.1.1, h.1.2, h.2⟩

theorem node_with_socket_trees : Library.node_with_socket.TreesOfObjects := by
  intro node gnode hgnode
  simp only [Library.node_with_socket, lookup_insert_eq_ite, Finmap.lookup_empty] at hgnode
  split at hgnode
  · obtain rfl := Option.some.inj hgnode
    decide
  · split at hgnode
    · obtain rfl := Option.some.inj hgnode
      decide
    · cases hgnode

theorem handles_in_context_iff_downward : (nav_calls_run downward_calls).length = 5 ∧
    ∀ x ∈ nav_calls_run downward_calls, @InContext ordered_sequence 1 x.2 := by
  have hrun := nav_calls_run_steps downward_calls (by decide +kernel)
  have hiff := @handles_in_context_iff 1 ordered_sequence Library.node_with_socket _
    Library.node_with_socket_wellFormed rfl node_with_socket_trees (by decide +kernel) hrun
  exact ⟨by decide +kernel, hiff.mpr (by decide +kernel)⟩

/-- The handle of a socket's parent is refused by `PWR_GrpAddObj` with a group of its context. -/
theorem handles_not_in_context :
    EachStep (@NavStep ordered_sequence 1) { lib := Library.node_with_socket } (nav_calls_run upward_calls) ∧
    (¬ ∀ x ∈ nav_calls_run upward_calls, @InContext ordered_sequence 1 x.2) ∧
    ∃ x ∈ nav_calls_run upward_calls, ∃ parent ∈ x.2.objects, ∃ group ∈ x.2.groups,
      (@Library.PWR_GrpAddObj ordered_sequence group parent x.2.lib).map (fun result => result.1.faults) =
        some ["object and group are not in the same context!"] := by
  have hrefused : ((nav_calls_run upward_calls).any fun x => x.2.objects.any fun parent =>
      x.2.groups.any fun group =>
        (@Library.PWR_GrpAddObj ordered_sequence group parent x.2.lib).map (fun result => result.1.faults) =
          some ["object and group are not in the same context!"]) = true := by decide +kernel
  have hkeys : ((nav_calls_run upward_calls).all fun x => (x.2.objects ++ x.2.groups).all fun handle =>
      OPAQUE_GET_CONTEXT_KEY handle = x.2.lib.opaque_key 1) = false := by decide +kernel
  refine ⟨nav_calls_run_steps upward_calls (by decide +kernel), fun hall => ?_, ?_⟩
  · refine Bool.eq_false_iff.mp hkeys (List.all_eq_true.mpr fun x hx => List.all_eq_true.mpr ?_)
    intro handle hhandle
    exact decide_eq_true (@(hall x hx).keys handle hhandle)
  · simpa only [List.any_eq_true, decide_eq_true_eq] using hrefused

end pwrapi
