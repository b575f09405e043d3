import Mathlib.Order.Lattice.Nat
import PowerApi.Api.TempGroups

open HashTable Relation

namespace pwrapi

namespace Library

/-- `PWR_ObjGetType`: its status and the type that it stores. -/
def PWR_ObjGetType (object : UInt64) (lib : Library) : Option (Int × PwrObjType) :=
  match lib.opaque_map_lookup_object (OPAQUE_GET_DATA_KEY object) with
  | none => some (PWR_RET_FAILURE, .INVALID)
  | some obj =>
    match lib.objects.lookup obj with
    | none => none
    | some o => some (PWR_RET_SUCCESS, o.type)

/-- The children of the node of an object, which are none without a node. -/
def child_nodes (lib : Library) (obj : Nat) : List Nat :=
  (((lib.objects.lookup obj).bind Obj.gnode).bind lib.gnodes.lookup).elim [] GNode.children

def ChildObj (lib : Library) (parent child : Nat) : Prop :=
  ∃ node ∈ lib.child_nodes parent, ∃ gnode, lib.gnodes.lookup node = some gnode ∧ gnode.data = child

/-- Below an object is a tree of allocated objects, with that many levels at most. -/
def TreeBelow (lib : Library) : Nat → Nat → Prop
  | 0, _ => False
  | levels + 1, obj =>
    (∃ o, lib.objects.lookup obj = some o ∧ ∀ node ∈ o.gnode, node ∈ lib.gnodes) ∧
      (∀ node ∈ lib.child_nodes obj, node ∈ lib.gnodes) ∧ ∀ child, lib.ChildObj obj child → lib.TreeBelow levels child

def OfType (lib : Library) (type : PwrObjType) (obj : Nat) : Prop :=
  ∃ o, lib.objects.lookup obj = some o ∧ o.type = type

/-- A null pointer where no candidate is of the type, else the handle of one that is. -/
def Chosen (lib : Library) (ctx : Nat) (type : PwrObjType) (candidates : Nat → Prop) (result : UInt64) : Prop :=
  result = 0 ∧ (∀ obj, candidates obj → ¬ lib.OfType type obj) ∨
    result ≠ 0 ∧ ∃ obj, candidates obj ∧ lib.OfType type obj ∧ result = lib.handle ctx obj

section Trees

variable {lib lib' : Library} {ctx obj child levels : Nat} {type : PwrObjType} {candidates : Nat → Prop}
  {result : UInt64}

theorem childObj_congr (hobjects : lib'.objects = lib.objects) (hgnodes : lib'.gnodes = lib.gnodes) :
    lib'.ChildObj = lib.ChildObj := by
  unfold ChildObj child_nodes
  rw [hobjects, hgnodes]

theorem TreeBelow.congr (htree : lib.TreeBelow levels obj) (hobjects : lib'.objects = lib.objects)
    (hgnodes : lib'.gnodes = lib.gnodes) : lib'.TreeBelow levels obj := by
  induction levels generalizing obj with
  | zero => exact htree
  | succ levels ih =>
    obtain ⟨hobj, hnodes, hchildren⟩ := htree
    refine ⟨by rwa [hobjects, hgnodes], ?_, fun child hchild => ?_⟩
    · unfold child_nodes at hnodes ⊢
      rwa [hobjects, hgnodes]
    · rw [childObj_congr hobjects hgnodes] at hchild
      exact ih (hchildren child hchild)

theorem TreeBelow.mem (htree : lib.TreeBelow levels obj) : obj ∈ lib.objects := by
  cases levels with
  | zero => exact htree.elim
  | succ levels =>
    obtain ⟨⟨o, ho, -⟩, -⟩ := htree
    exact Finmap.mem_of_lookup_eq_some ho

/-- Where the objects keep their handles, what is chosen stays so. -/
theorem Chosen.congr (hobjects : lib'.objects = lib.objects)
    (hhandle : ∀ obj ∈ lib.objects, lib'.handle ctx obj = lib.handle ctx obj)
    (h : lib'.Chosen ctx type candidates result) : lib.Chosen ctx type candidates result := by
  unfold Chosen OfType at h ⊢
  rw [hobjects] at h
  refine h.imp id (And.imp id ?_)
  rintro ⟨obj, hcandidate, ⟨o, ho, htype⟩, rfl⟩
  exact ⟨obj, hcandidate, ⟨o, ho, htype⟩, hhandle obj (Finmap.mem_of_lookup_eq_some ho)⟩

/-- Nothing is chosen of the first candidates, so what is chosen of the others is it. -/
theorem Chosen.or {first rest : Nat → Prop} (h : lib.Chosen ctx type first 0) (h' : lib.Chosen ctx type rest result)
    (hall : ∀ obj, candidates obj ↔ first obj ∨ rest obj) : lib.Chosen ctx type candidates result := by
  rcases h with ⟨-, hfirst⟩ | ⟨hzero, -⟩
  · refine h'.imp (And.imp_right fun hrest obj hobj => ?_) (And.imp_right ?_)
    · exact ((hall obj).mp hobj).elim (hfirst obj) (hrest obj)
    · rintro ⟨obj, hobj, hchosen⟩
      exact ⟨obj, (hall obj).mpr (Or.inr hobj), hchosen⟩
  · exact absurd rfl hzero

/-- What is found among some of the candidates is chosen. -/
theorem Chosen.found {some_of : Nat → Prop} (h : lib.Chosen ctx type some_of result) (hresult : result ≠ 0)
    (hsub : ∀ obj, some_of obj → candidates obj) : lib.Chosen ctx type candidates result := by
  rcases h with ⟨hzero, -⟩ | ⟨-, obj, hobj, hchosen⟩
  · exact absurd hzero hresult
  · exact Or.inr ⟨hresult, obj, hsub obj hobj, hchosen⟩

/-- An object of another type is not chosen. -/
theorem chosen_none_of {o : Obj} (ho : lib.objects.lookup obj = some o) (htype : o.type ≠ type) :
    lib.Chosen ctx type (· = obj) 0 := by
  refine Or.inl ⟨rfl, ?_⟩
  rintro other rfl ⟨o', ho', htype'⟩
  rw [ho] at ho'
  exact htype (Option.some.inj ho' ▸ htype')

/-- The objects of a subtree are the first one and those of its children's subtrees. -/
theorem below_iff {other : Nat} : ReflTransGen lib.ChildObj obj other ↔
    other = obj ∨ ∃ child, lib.ChildObj obj child ∧ ReflTransGen lib.ChildObj child other :=
  ReflTransGen.cases_head_iff.trans (or_congr_left eq_comm)

theorem Restored.handle_eq (h : lib.Restored lib') (hctx : ctx ∈ lib.contexts) (hobj : obj ∈ lib.objects) :
    lib'.handle ctx obj = lib.handle ctx obj := by
  rw [handle, h.key_eq (show lib.Live .CONTEXT ctx from hctx), h.key_eq (show lib.Live .OBJECT obj from hobj), handle]

theorem TempGroup.handle_eq {c : Context} {new : Alloc} {list : List Nat} (h : TempGroup lib ctx c new list lib')
    (hctx : ctx ∈ lib.contexts) (hobj : obj ∈ lib.objects) : lib'.handle ctx obj = lib.handle ctx obj := by
  rw [handle, h.key_eq (show lib.Live .CONTEXT ctx from hctx), h.key_eq (show lib.Live .OBJECT obj from hobj), handle]

theorem WellFormed.handle_ne_zero (hwf : lib.WellFormed) (hctx : ctx ∈ lib.contexts) (hobj : obj ∈ lib.objects) :
    lib.handle ctx obj ≠ 0 := by
  intro hzero
  have hdata := (hwf.unpack .OBJECT hctx hobj).2
  rw [← handle, hzero] at hdata
  exact (hwf.keyed .OBJECT obj hobj).nonzero (hdata.symm.trans (by decide))

theorem WellFormed.PWR_ObjGetType_handle (hwf : lib.WellFormed) (hctx : ctx ∈ lib.contexts) {o : Obj}
    (ho : lib.objects.lookup obj = some o) :
    lib.PWR_ObjGetType (lib.handle ctx obj) = some (PWR_RET_SUCCESS, o.type) := by
  have hobj : obj ∈ lib.objects := Finmap.mem_of_lookup_eq_some ho
  have hfound : lib.opaque_map_lookup_object (lib.opaque_key obj) = some obj := (hwf.keyed .OBJECT obj hobj).found
  simp only [PWR_ObjGetType, handle, (hwf.unpack .OBJECT hctx hobj).2, hfound, ho]

section Children

variable [GSequence] {new : Alloc}

theorem WellFormed.PWR_ObjGetChildren_handle (hwf : lib.WellFormed) (hctx : ctx ∈ lib.contexts)
    (hobj : obj ∈ lib.objects) (new : Alloc) :
    lib.PWR_ObjGetChildren (lib.handle ctx obj) new = lib.obj_get_children ctx obj (lib.opaque_key ctx) new := by
  obtain ⟨hcontext, hdata⟩ := hwf.unpack .OBJECT hctx hobj
  have hctx_found : lib.opaque_map_lookup_context (lib.opaque_key ctx) = some ctx := (hwf.keyed .CONTEXT ctx hctx).found
  have hfound : lib.opaque_map_lookup_object (lib.opaque_key obj) = some obj := (hwf.keyed .OBJECT obj hobj).found
  simp only [PWR_ObjGetChildren, handle, hcontext, hdata, hctx_found, hfound]

/-- Without children there is no group. -/
theorem TreeBelow.no_children (htree : lib.TreeBelow levels obj) (hwf : lib.WellFormed) (hctx : ctx ∈ lib.contexts)
    (hnone : lib.child_nodes obj = []) (new : Alloc) :
    lib.PWR_ObjGetChildren (lib.handle ctx obj) new = some ({ status := PWR_RET_WARN_NO_CHILDREN }, lib) := by
  rw [hwf.PWR_ObjGetChildren_handle hctx htree.mem]
  cases levels with
  | zero => exact htree.elim
  | succ levels =>
    obtain ⟨⟨o, ho, hnode⟩, -⟩ := htree
    cases hgnode : o.gnode with
    | none => simp only [obj_get_children, ho, hgnode]
    | some node =>
      obtain ⟨gnode, hlookup⟩ := Finmap.mem_iff.mp (hnode node hgnode)
      have hchildren : gnode.children = [] := by simpa [child_nodes, ho, hgnode, hlookup] using hnone
      simp only [obj_get_children, ho, hgnode, hlookup, hchildren, if_true]

/-- The children of an object are the members of a new group, in the order of their addresses. -/
theorem TreeBelow.children_sorted (htree : lib.TreeBelow levels obj) (hwf : lib.WellFormed) {c : Context}
    (hc : lib.contexts.lookup ctx = some c) (hsome : lib.child_nodes obj ≠ []) (hunused : lib.Unused new.address)
    (hdraws : new.Draws lib) :
    ∃ list lib1, lib.PWR_ObjGetChildren (lib.handle ctx obj) new = some (success (lib1.handle ctx new.address), lib1) ∧
      TempGroup lib ctx c new list lib1 ∧ list.Pairwise (· < ·) ∧ ∀ other, other ∈ list ↔ lib.ChildObj obj other := by
  have hctx : ctx ∈ lib.contexts := Finmap.mem_of_lookup_eq_some hc
  rw [hwf.PWR_ObjGetChildren_handle hctx htree.mem]
  cases levels with
  | zero => exact htree.elim
  | succ levels =>
    obtain ⟨⟨o, ho, hnode⟩, hnodes, -⟩ := htree
    cases hgnode : o.gnode with
    | none => simp [child_nodes, ho, hgnode] at hsome
    | some node =>
      obtain ⟨gnode, hlookup⟩ := Finmap.mem_iff.mp (hnode node hgnode)
      have hchildren : lib.child_nodes obj = gnode.children := by simp [child_nodes, ho, hgnode, hlookup]
      rw [hchildren] at hsome hnodes
      obtain ⟨lib1, hnew, htemp⟩ := context_new_group_temp hwf hunused hdraws hc
      obtain ⟨list, lib2, hfold, htemp2, hsorted, hmem⟩ :=
        htemp.children_sorted List.Pairwise.nil fun n hn => Finmap.mem_iff.mp (hnodes n hn)
      have hkey : lib2.opaque_key ctx = lib.opaque_key ctx := htemp2.key_eq (show lib.Live .CONTEXT ctx from hctx)
      refine ⟨list, lib2, ?_, htemp2, hsorted, fun other => ?_⟩
      · simp only [obj_get_children, ho, hgnode, hlookup, if_neg hsome, hnew, hfold, handle, hkey]
      · rw [hmem, ChildObj, hchildren]
        simp

theorem TreeBelow.children (htree : lib.TreeBelow levels obj) (hwf : lib.WellFormed) {c : Context}
    (hc : lib.contexts.lookup ctx = some c) (hsome : lib.child_nodes obj ≠ []) (hunused : lib.Unused new.address)
    (hdraws : new.Draws lib) :
    ∃ list lib1, lib.PWR_ObjGetChildren (lib.handle ctx obj) new = some (success (lib1.handle ctx new.address), lib1) ∧
      TempGroup lib ctx c new list lib1 ∧ ∀ other, other ∈ list ↔ lib.ChildObj obj other := by
  obtain ⟨list, lib1, hget, htemp, -, hmem⟩ := htree.children_sorted hwf hc hsome hunused hdraws
  exact ⟨list, lib1, hget, htemp, hmem⟩

end Children

end Trees

end Library

namespace cnctl

/-- The children groups that are made and destroyed. -/
inductive GroupEvent where
  | made (group : UInt64)
  | destroyed (group : UInt64) (status : Int)
  deriving DecidableEq, Repr

/-- The library, the number of records allocated so far, and what became of the groups. -/
structure Search where
  lib : Library
  allocs : Nat := 0
  events : List GroupEvent := []

def Search.get_children [GSequence] (malloc : Nat → Library → Alloc) (object : UInt64) (s : Search) :
    Option (Reply × Search) :=
  match s.lib.PWR_ObjGetChildren object (malloc s.allocs s.lib) with
  | none => none
  | some (reply, lib) =>
    if reply.status = PWR_RET_SUCCESS then
      some (reply, { lib, allocs := s.allocs + 1, events := s.events ++ [.made reply.handle] })
    else some (reply, { s with lib })

def Search.destroy (group : UInt64) (s : Search) : Option (Int × Search) :=
  match s.lib.PWR_GrpDestroy group with
  | none => none
  | some (reply, lib) => some (reply.status, { s with lib, events := s.events ++ [.destroyed group reply.status] })

/-- The loop of `find_object_of_type` from the index on, with the calls still to make, and the
end of the group. -/
def find_loop (find : UInt64 → UInt64 → Search → Option (Int × UInt64 × Search)) (group : UInt64) :
    Nat → Nat → UInt64 → Search → Option (Int × UInt64 × Search)
  | 0, _, result, s => (s.destroy group).map fun (retval, s) => (retval, result, s)
  | left + 1, idx, result, s =>
    match s.lib.PWR_GrpGetObjByIndx group idx with
    | none => none
    | some child =>
      if child.status ≠ PWR_RET_SUCCESS then
        (s.destroy group).map fun (_, s) => (child.status, result, s)
      else
        match find child.handle result s with
        | none => none
        | some (retval, result, s) =>
          if retval ≠ PWR_RET_SUCCESS then (s.destroy group).map fun (_, s) => (retval, result, s)
          else if result ≠ 0 then (s.destroy group).map fun (retval, s) => (retval, result, s)
          else find_loop find group left (idx + 1) result s

/-- `find_object_of_type`: its status and what `*result` is afterwards. The number bounds the
depth of the recursion. -/
def find_object_of_type [GSequence] (malloc : Nat → Library → Alloc) (find_type : PwrObjType) :
    Nat → UInt64 → UInt64 → Search → Option (Int × UInt64 × Search)
  | 0, _, _, _ => none
  | depth + 1, parent, result, s =>
    match s.lib.PWR_ObjGetType parent with
    | none => none
    | some (retval, type) =>
      if retval ≠ PWR_RET_SUCCESS then some (retval, result, s)
      else if type = find_type then some (retval, parent, s)
      else
        match s.get_children malloc parent with
        | none => none
        | some (reply, s) =>
          if reply.status = PWR_RET_WARN_NO_CHILDREN then some (PWR_RET_SUCCESS, result, s)
          else if reply.status ≠ PWR_RET_SUCCESS then some (reply.status, result, s)
          else
            match s.lib.PWR_GrpGetNumObjs reply.handle with
            | none => none
            | some count =>
              -- one variable holds the status and the number
              if count.status < 0 then some (count.status, result, s)
              else find_loop (find_object_of_type malloc find_type depth) reply.handle count.status.toNat 0 result s

/-- Every group that is made is destroyed once, after the groups made since. -/
inductive Balanced : List GroupEvent → Prop
  | nil : Balanced []
  | append {first rest : List GroupEvent} : Balanced first → Balanced rest → Balanced (first ++ rest)
  | group {inner : List GroupEvent} (group : UInt64) : Balanced inner →
      Balanced (.made group :: inner ++ [.destroyed group PWR_RET_SUCCESS])

/-- New records get unused addresses, and keys as long as there are free ones. -/
def Allocates (malloc : Nat → Library → Alloc) : Prop :=
  ∀ allocs lib, lib.HasFreeKey → lib.Unused (malloc allocs lib).address ∧ (malloc allocs lib).Draws lib

/-- What a search among the candidates does. -/
structure Searched (s : Search) (ctx : Nat) (type : PwrObjType) (candidates : Nat → Prop) (result : UInt64)
    (s' : Search) : Prop where
  restored : s.lib.Restored s'.lib
  balanced : ∃ events, s'.events = s.events ++ events ∧ Balanced events
  chosen : s.lib.Chosen ctx type candidates result

open Library

section Loop

variable {lib lib1 : Library} {ctx : Nat} {c : Context} {new : Alloc} {list : List Nat} {type : PwrObjType}
  {levels : Nat} {find : Nat → UInt64 → UInt64 → Search → Option (Int × UInt64 × Search)}

/-- The end of the group while the library is as after its making. -/
theorem destroy_temp (htemp : TempGroup lib ctx c new list lib1) (hc : lib.contexts.lookup ctx = some c) {s : Search}
    (hrestored : lib1.Restored s.lib) :
    ∃ s', s.destroy (lib1.handle ctx new.address) = some (PWR_RET_SUCCESS, s') ∧ lib.Restored s'.lib ∧
      s'.events = s.events ++ [.destroyed (lib1.handle ctx new.address) PWR_RET_SUCCESS] := by
  obtain ⟨lib3, hdestroy, hrestored3⟩ := htemp.destroy hc hrestored
  refine ⟨{ s with lib := lib3, events := s.events ++ [.destroyed (lib1.handle ctx new.address) PWR_RET_SUCCESS] }, ?_,
    hrestored3, rfl⟩
  simp only [Search.destroy, hdestroy, success]

/-- The member at an index, by its handle, whatever other groups there are. -/
theorem member_extended (htemp : TempGroup lib ctx c new list lib1) (hctx : ctx ∈ lib.contexts)
    (hobjects : ∀ child ∈ list, child ∈ lib.objects) {lib2 : Library} (hextended : lib1.Extended lib2) {idx : Nat}
    (hidx : idx < list.length) :
    lib2.PWR_GrpGetObjByIndx (lib1.handle ctx new.address) idx = some (success (lib2.handle ctx list[idx])) := by
  have hctx1 : lib1.Live .CONTEXT ctx := (htemp.made.contexts ctx).mpr hctx
  obtain ⟨hgroup, hlookup⟩ := htemp.find_extended hctx hextended
  have hcontext : OPAQUE_GET_CONTEXT_KEY (lib1.handle ctx new.address) = lib2.opaque_key ctx :=
    (htemp.made.wf.unpack .GROUP hctx1 htemp.live).1.trans (hextended.key_eq hctx1).symm
  have hlive : list[idx] ∈ lib2.objects := by
    rw [hextended.objects, htemp.made.objects]
    exact hobjects _ (List.getElem_mem hidx)
  simp only [PWR_GrpGetObjByIndx, hgroup, hlookup, Int.toNat_natCast, List.getElem?_eq_getElem hidx, hlive, hcontext,
    if_true, if_neg (Int.natCast_nonneg idx).not_gt]
  rfl

theorem member_at (htemp : TempGroup lib ctx c new list lib1) (hctx : ctx ∈ lib.contexts)
    (hobjects : ∀ child ∈ list, child ∈ lib.objects) {lib2 : Library} (hrestored : lib1.Restored lib2) {idx : Nat}
    (hidx : idx < list.length) :
    lib2.PWR_GrpGetObjByIndx (lib1.handle ctx new.address) idx = some (success (lib2.handle ctx list[idx])) :=
  member_extended htemp hctx hobjects hrestored.extended hidx

/-- Where each child is searched as it should be, the loop chooses among those that are left and
destroys the group. -/
theorem find_loop_spec (htemp : TempGroup lib ctx c new list lib1) (hc : lib.contexts.lookup ctx = some c)
    (hobjects : ∀ child ∈ list, child ∈ lib.objects)
    (hfind : ∀ child ∈ list, ∀ s : Search, lib1.Restored s.lib → ∃ result s',
      (∀ depth ≥ levels, find depth (s.lib.handle ctx child) 0 s = some (PWR_RET_SUCCESS, result, s')) ∧
        Searched s ctx type (ReflTransGen lib.ChildObj child) result s')
    {left idx : Nat} (hlength : idx + left = list.length) (s : Search) (hrestored : lib1.Restored s.lib) :
    ∃ result s', (∀ depth ≥ levels, find_loop (find depth) (lib1.handle ctx new.address) left idx 0 s =
        some (PWR_RET_SUCCESS, result, s')) ∧ lib.Restored s'.lib ∧
      (∃ inner, s'.events = s.events ++ inner ++ [.destroyed (lib1.handle ctx new.address) PWR_RET_SUCCESS] ∧
        Balanced inner) ∧
      lib.Chosen ctx type (fun other => ∃ child ∈ list.drop idx, ReflTransGen lib.ChildObj child other) result := by
  have hctx : ctx ∈ lib.contexts := Finmap.mem_of_lookup_eq_some hc
  induction left generalizing idx s with
  | zero =>
    obtain ⟨s', hdestroy, hrestored', hevents⟩ := destroy_temp htemp hc hrestored
    refine ⟨0, s', fun depth _ => ?_, hrestored', ⟨[], by simpa using hevents, .nil⟩, Or.inl ⟨rfl, ?_⟩⟩
    · rw [find_loop, hdestroy, Option.map_some]
    · rw [List.drop_of_length_le (show list.length ≤ idx by omega)]
      simp
  | succ left ih =>
    have hidx : idx < list.length := by omega
    have hmem : list[idx] ∈ list := List.getElem_mem hidx
    have hchild := member_at htemp hctx hobjects hrestored hidx
    obtain ⟨result, s1, hfound, hsearched⟩ := hfind _ hmem s hrestored
    have hrestored1 : lib1.Restored s1.lib := hrestored.trans hsearched.restored
    obtain ⟨events, hevents, hbalanced⟩ := hsearched.balanced
    have hchosen : lib.Chosen ctx type (ReflTransGen lib.ChildObj list[idx]) result := by
      refine hsearched.chosen.congr (by rw [hrestored.objects, htemp.made.objects]) fun other hother => ?_
      have hother1 : other ∈ lib1.objects := by rwa [htemp.made.objects]
      rw [hrestored.handle_eq ((htemp.made.contexts ctx).mpr hctx) hother1, htemp.handle_eq hctx hother]
    have hdrop : list.drop idx = list[idx] :: list.drop (idx + 1) := List.drop_eq_getElem_cons hidx
    by_cases hresult : result = 0
    · -- nothing below this child, so the choice is among those after it
      obtain ⟨last, s', hloop, hrestored', ⟨inner, hevents', hbalanced'⟩, hchosen'⟩ :=
        @ih (idx + 1) (by omega) s1 hrestored1
      refine ⟨last, s', fun depth hdepth => ?_, hrestored', ⟨events ++ inner, ?_, hbalanced.append hbalanced'⟩, ?_⟩
      · rw [← hloop depth hdepth, find_loop]
        simp only [hchild, success, hfound depth hdepth, hresult, ne_eq, not_true_eq_false, if_false]
      · rw [hevents', hevents, List.append_assoc s.events]
      · refine (hresult ▸ hchosen).or hchosen' fun other => ?_
        rw [hdrop, List.exists_mem_cons_iff]
    · obtain ⟨s', hdestroy, hrestored', hevents'⟩ := destroy_temp htemp hc hrestored1
      refine ⟨result, s', fun depth hdepth => ?_, hrestored', ⟨events, by rw [hevents', hevents], hbalanced⟩, ?_⟩
      · rw [find_loop]
        simp only [hchild, success, hfound depth hdepth, hresult, hdestroy, ne_eq, not_true_eq_false, not_false_eq_true,
          if_false, if_true, Option.map_some]
      · refine hchosen.found hresult fun other hother => ⟨list[idx], ?_, hother⟩
        rw [hdrop]
        exact List.mem_cons_self

end Loop

section Search

variable [GSequence] {malloc : Nat → Library → Alloc} {ctx obj levels depth : Nat} {find_type : PwrObjType} {s : Search}

/-- An object of the type is the result itself. -/
theorem find_same_type (hwf : s.lib.WellFormed) (hctx : ctx ∈ s.lib.contexts) {o : Obj}
    (ho : s.lib.objects.lookup obj = some o) (hsame : o.type = find_type) :
    find_object_of_type malloc find_type (depth + 1) (s.lib.handle ctx obj) 0 s =
      some (PWR_RET_SUCCESS, s.lib.handle ctx obj, s) := by
  simp [find_object_of_type, hwf.PWR_ObjGetType_handle hctx ho, hsame]

/-- Without children, an object of another type leaves nothing to search. -/
theorem find_no_children (hwf : s.lib.WellFormed) (hctx : ctx ∈ s.lib.contexts) (htree : s.lib.TreeBelow levels obj)
    {o : Obj} (ho : s.lib.objects.lookup obj = some o) (hother : o.type ≠ find_type) (hnone : s.lib.child_nodes obj = []) :
    find_object_of_type malloc find_type (depth + 1) (s.lib.handle ctx obj) 0 s = some (PWR_RET_SUCCESS, 0, s) := by
  have hget := htree.no_children hwf hctx hnone (malloc s.allocs s.lib)
  have hstatus : PWR_RET_WARN_NO_CHILDREN ≠ PWR_RET_SUCCESS := by decide
  simp only [find_object_of_type, hwf.PWR_ObjGetType_handle hctx ho, hother, Search.get_children, hget, hstatus, ne_eq,
    not_true_eq_false, if_false, if_true]

/-- Otherwise the loop goes through the group of the children. -/
theorem find_children (hwf : s.lib.WellFormed) (hctx : ctx ∈ s.lib.contexts) {o : Obj}
    (ho : s.lib.objects.lookup obj = some o) (hother : o.type ≠ find_type) {c : Context} {lib1 : Library}
    {list : List Nat} (htemp : TempGroup s.lib ctx c (malloc s.allocs s.lib) list lib1)
    (hget : s.lib.PWR_ObjGetChildren (s.lib.handle ctx obj) (malloc s.allocs s.lib) =
      some (success (lib1.handle ctx (malloc s.allocs s.lib).address), lib1)) :
    find_object_of_type malloc find_type (depth + 1) (s.lib.handle ctx obj) 0 s =
      find_loop (find_object_of_type malloc find_type depth) (lib1.handle ctx (malloc s.allocs s.lib).address)
        list.length 0 0 { lib := lib1, allocs := s.allocs + 1,
                          events := s.events ++ [.made (lib1.handle ctx (malloc s.allocs s.lib).address)] } := by
  obtain ⟨hgroup, hlookup⟩ := htemp.find_group hctx (.refl htemp.made.wf)
  have hcount : ¬ (list.length : Int) < 0 := (Int.natCast_nonneg _).not_gt
  simp only [find_object_of_type, hwf.PWR_ObjGetType_handle hctx ho, hother, Search.get_children, hget,
    PWR_GrpGetNumObjs, hgroup, hlookup, success, ne_eq, not_true_eq_false, if_false, if_true, hcount, Int.toNat_natCast]
  exact if_neg (by decide)

/-- The search in a tree of objects ends with success. It chooses among the object and those below
it, and leaves nothing of the groups that it makes on the way. -/
theorem find_object_of_type_right (hmalloc : Allocates malloc) (find_type : PwrObjType) (s : Search)
    (hwf : s.lib.WellFormed) (hctx : ctx ∈ s.lib.contexts) (htree : s.lib.TreeBelow levels obj)
    (hroom : s.lib.RoomFor levels) :
    ∃ result s', (∀ depth ≥ levels, find_object_of_type malloc find_type depth (s.lib.handle ctx obj) 0 s =
        some (PWR_RET_SUCCESS, result, s')) ∧
      Searched s ctx find_type (ReflTransGen s.lib.ChildObj obj) result s' := by
  induction levels generalizing obj s with
  | zero => exact htree.elim
  | succ levels ih =>
    obtain ⟨⟨o, ho, -⟩, -, hchildren⟩ := id htree
    obtain ⟨c, hc⟩ := Finmap.mem_iff.mp hctx
    by_cases hsame : o.type = find_type
    · refine ⟨s.lib.handle ctx obj, s, ?_, .refl hwf, ⟨[], by simp, .nil⟩, Or.inr ?_⟩
      · rintro (_ | depth) hdepth
        · omega
        · exact find_same_type hwf hctx ho hsame
      · exact ⟨hwf.handle_ne_zero hctx htree.mem, obj, .refl, ⟨o, ho, hsame⟩, rfl⟩
    have hnot_self : s.lib.Chosen ctx find_type (· = obj) 0 := chosen_none_of ho hsame
    by_cases hsome : s.lib.child_nodes obj = []
    · refine ⟨0, s, ?_, .refl hwf, ⟨[], by simp, .nil⟩, hnot_self.or hnot_self fun other => ?_⟩
      · rintro (_ | depth) hdepth
        · omega
        · exact find_no_children hwf hctx htree ho hsame hsome
      · rw [below_iff]
        simp [ChildObj, hsome]
    obtain ⟨hunused, hdraws⟩ := hmalloc s.allocs s.lib hroom.free_key
    obtain ⟨list, lib1, hget, htemp, hlist⟩ := htree.children hwf hc hsome hunused hdraws
    have hlive : ∀ child ∈ list, child ∈ s.lib.objects := fun child hchild =>
      (hchildren child ((hlist child).mp hchild)).mem
    have hfind : ∀ child ∈ list, ∀ s1 : Search, lib1.Restored s1.lib → ∃ result s',
        (∀ depth ≥ levels, find_object_of_type malloc find_type depth (s1.lib.handle ctx child) 0 s1 =
          some (PWR_RET_SUCCESS, result, s')) ∧
          Searched s1 ctx find_type (ReflTransGen s.lib.ChildObj child) result s' := by
      intro child hchild s1 hrestored
      have hobjects : s1.lib.objects = s.lib.objects := by rw [hrestored.objects, htemp.made.objects]
      have hgnodes : s1.lib.gnodes = s.lib.gnodes := by rw [hrestored.gnodes, htemp.made.gnodes]
      have hctx1 : ctx ∈ s1.lib.contexts := (hrestored.live_iff .CONTEXT ctx).mpr ((htemp.made.contexts ctx).mpr hctx)
      have htree1 := (hchildren child ((hlist child).mp hchild)).congr hobjects hgnodes
      have hsearch := ih s1 hrestored.wf hctx1 htree1 (hrestored.room (htemp.room hroom))
      rwa [childObj_congr hobjects hgnodes] at hsearch
    obtain ⟨result, s', hloop, hrestored, ⟨inner, hevents, hbalanced⟩, hchosen⟩ :=
      find_loop_spec htemp hc hlive hfind (Nat.zero_add list.length)
        { lib := lib1, allocs := s.allocs + 1,
          events := s.events ++ [.made (lib1.handle ctx (malloc s.allocs s.lib).address)] } (.refl htemp.made.wf)
    refine ⟨result, s', ?_, hrestored, ⟨_, ?_, hbalanced.group (lib1.handle ctx (malloc s.allocs s.lib).address)⟩,
      hnot_self.or hchosen fun other => ?_⟩
    · rintro (_ | depth) hdepth
      · omega
      · rw [find_children hwf hctx ho hsame htemp hget]
        exact hloop depth (Nat.le_of_succ_le_succ hdepth)
    · rw [hevents]
      simp
    · rw [below_iff]
      simp only [List.drop_zero, hlist]

end Search

/-- An address above all the others, and the highest key that is free. -/
def fresh_alloc (_ : Nat) (lib : Library) : Alloc where
  address := (lib.contexts.keys ∪ lib.groups.keys ∪ lib.objects.keys ∪ lib.stats.keys).sup id + 1
  draws := [UInt32.ofNat (Nat.findGreatest (fun n => UInt32.ofNat n ≠ 0 ∧
    lib.opaque_map.table.lookup (UInt32.ofNat n).toUInt64 = none) (2 ^ 32 - 1))]

theorem draws_of_free {lib : Library} {address : Nat} {draw : UInt32} (hdraw : draw ≠ 0)
    (hfree : lib.opaque_map.table.lookup draw.toUInt64 = none) : (Alloc.mk address [draw]).Draws lib := by
  have hkey : draw.toUInt64 ≠ 0 := fun hzero => hdraw (UInt32.toUInt64_inj.mp hzero)
  unfold Alloc.Draws opaque_map_insert opaque_map_lookup
  simp only [hfree, if_neg hkey]
  exact ⟨_, _, rfl⟩

theorem fresh_alloc_allocates : Allocates fresh_alloc := by
  rintro allocs lib ⟨draw, hdraw⟩
  constructor
  · rw [unused_iff]
    have habove : (fresh_alloc allocs lib).address ∉
        lib.contexts.keys ∪ lib.groups.keys ∪ lib.objects.keys ∪ lib.stats.keys := fun hmem =>
      absurd (Finset.le_sup (f := id) hmem) (Nat.not_succ_le_self _)
    simpa only [Finset.mem_union, Finmap.mem_keys, not_or, and_assoc] using habove
  · have hfind := Nat.findGreatest_spec (P := fun n => UInt32.ofNat n ≠ 0 ∧
      lib.opaque_map.table.lookup (UInt32.ofNat n).toUInt64 = none) (Nat.le_pred_of_lt draw.toNat_lt)
      (by rwa [UInt32.ofNat_toNat])
    exact draws_of_free hfind.1 hfind.2

theorem node_with_socket_tree : Library.node_with_socket.TreeBelow 2 10 := by
  have hnode : Library.node_with_socket.child_nodes 10 = [21] := by decide
  have hsocket : Library.node_with_socket.child_nodes 20 = [] := by decide
  refine ⟨⟨_, rfl, by decide⟩, by rw [hnode]; decide, ?_⟩
  rintro child ⟨node, hmem, gnode, hlookup, rfl⟩
  rw [hnode, List.mem_singleton] at hmem
  subst hmem
  obtain rfl : { data := 20, parent := some 11, children := [] } = gnode := Option.some.inj hlookup
  refine ⟨⟨_, rfl, by decide⟩, by rw [hsocket]; decide, ?_⟩
  rintro child ⟨node, hmem, -⟩
  rw [hsocket] at hmem
  cases hmem

/-- The socket is found below the node. -/
theorem find_object_of_type_right_socket :
    (@find_object_of_type ordered_sequence fresh_alloc .SOCKET 2 (Library.node_with_socket.handle 1 10) 0
      { lib := Library.node_with_socket }).map (fun found => (found.1, found.2.1, found.2.2.events.length)) =
        some (PWR_RET_SUCCESS, OPAQUE_GENERATE 5 7, 2) ∧
    ∃ result s', @find_object_of_type ordered_sequence fresh_alloc .SOCKET 2 (Library.node_with_socket.handle 1 10) 0
        { lib := Library.node_with_socket } = some (PWR_RET_SUCCESS, result, s') ∧
      Searched { lib := Library.node_with_socket } 1 .SOCKET
        (ReflTransGen Library.node_with_socket.ChildObj 10) result s' := by
  obtain ⟨result, s', hfound, hsearched⟩ := @find_object_of_type_right ordered_sequence fresh_alloc 1 10 2
    fresh_alloc_allocates .SOCKET { lib := Library.node_with_socket } Library.node_with_socket_wellFormed
    (by decide) node_with_socket_tree (by unfold Library.RoomFor; decide)
  exact ⟨by decide +kernel, result, s', hfound 2 le_rfl, hsearched⟩

end cnctl

end pwrapi
