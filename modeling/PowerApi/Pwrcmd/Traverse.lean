import Mathlib
import PowerApi.Cnctl.FindObject

open Relation

namespace pwrapi

namespace Library

/-- The children of an object in the order of their addresses. -/
def children (lib : Library) (obj : Nat) : List Nat :=
  (((lib.child_nodes obj).filterMap lib.gnodes.lookup).map GNode.data).dedup.insertionSort (· ≤ ·)

end Library

namespace pwrcmd

open Library

/-- A call of `visit_function` or of `leave_function`. -/
inductive Visit where
  | visit (object : UInt64) (child_count : Int)
  | leave (object : UInt64) (child_count : Int)
  deriving DecidableEq, Repr

/-- `visit_function` and `leave_function`, which may look objects up in the library. -/
structure Visitor (σ : Type) where
  visit_function : Library → UInt64 → Int → σ → σ
  -- a null pointer is not called
  leave_function : Library → UInt64 → Int → σ → σ := fun _ _ _ data => data

/-- The library, the number of records allocated so far, the data of the functions and the errors that were printed. -/
structure Traversal (σ : Type) where
  lib : Library
  allocs : Nat := 0
  data : σ
  errors : List Int := []

section Source

variable {σ : Type} (visitor : Visitor σ)

def Visitor.call (lib : Library) (data : σ) : Visit → σ
  | .visit object child_count => visitor.visit_function lib object child_count data
  | .leave object child_count => visitor.leave_function lib object child_count data

def Traversal.call (visit : Visit) (t : Traversal σ) : Traversal σ := { t with data := visitor.call t.lib t.data visit }

/-- The loop of `traverse_pre_order` over the children from the index on, with the calls still to make. -/
def traverse_loop (traverse : UInt64 → Traversal σ → Option (Traversal σ)) (children : UInt64) :
    Nat → Nat → UInt64 → Traversal σ → Option (Traversal σ)
  | 0, _, _, t => some t
  | left + 1, i, child, t =>
    match t.lib.PWR_GrpGetObjByIndx children i with
    | none => none
    | some reply =>
      -- the variable keeps what it had where there is no object
      let child := if reply.status = PWR_RET_SUCCESS then reply.handle else child
      match traverse child t with
      | none => none
      | some t => traverse_loop traverse children left (i + 1) child t

/-- `traverse_pre_order`. The number bounds the depth of the recursion. -/
def traverse_pre_order [GSequence] (malloc : Nat → Library → Alloc) : Nat → UInt64 → Traversal σ → Option (Traversal σ)
  | 0, _, _ => none
  | depth + 1, root, t =>
    match t.lib.PWR_ObjGetChildren root (malloc t.allocs t.lib) with
    | none => none
    | some (reply, lib) =>
      if reply.status = PWR_RET_SUCCESS then
        match lib.PWR_GrpGetNumObjs reply.handle with
        | none => none
        | some count =>
          let t := Traversal.call visitor (.visit root count.status) { t with lib, allocs := t.allocs + 1 }
          (traverse_loop (traverse_pre_order malloc depth) reply.handle count.status.toNat 0 0 t).map
            (Traversal.call visitor (.leave root count.status))
      else
        let t := if reply.status = PWR_RET_WARN_NO_CHILDREN then { t with lib }
          else { t with lib, errors := t.errors ++ [reply.status] }
        some ((t.call visitor (.visit root 0)).call visitor (.leave root 0))

end Source

/-! The walk through a tree -/

/-- Every object is entered before those below it and left after them. -/
def walk (lib : Library) (ctx : Nat) : Nat → Nat → List Visit
  | 0, _ => []
  | levels + 1, obj =>
    .visit (lib.handle ctx obj) (lib.children obj).length ::
      ((lib.children obj).flatMap (walk lib ctx levels) ++ [.leave (lib.handle ctx obj) (lib.children obj).length])

/-- The number of objects that have children, in a tree of that many levels. -/
def parents (lib : Library) : Nat → Nat → Nat
  | 0, _ => 0
  | levels + 1, obj => if lib.children obj = [] then 0 else ((lib.children obj).map (parents lib levels)).sum + 1

section Walk

variable {lib lib' : Library} {ctx obj levels : Nat}

theorem mem_children {other : Nat} : other ∈ lib.children obj ↔ lib.ChildObj obj other := by
  rw [children, List.mem_insertionSort, List.mem_dedup, List.mem_map, ChildObj]
  constructor
  · rintro ⟨gnode, hmem, rfl⟩
    obtain ⟨node, hnode, hlookup⟩ := List.mem_filterMap.mp hmem
    exact ⟨node, hnode, gnode, hlookup, rfl⟩
  · rintro ⟨node, hnode, gnode, hlookup, rfl⟩
    exact ⟨gnode, List.mem_filterMap.mpr ⟨node, hnode, hlookup⟩, rfl⟩

/-- The members of a group of the children are the children in their order. -/
theorem children_eq {list : List Nat} (hsorted : list.Pairwise (· < ·)) (hmem : ∀ other, other ∈ list ↔ lib.ChildObj obj other) :
    lib.children obj = list := by
  have hnodup : (lib.children obj).Nodup := (List.perm_insertionSort _ _).nodup_iff.mpr (List.nodup_dedup _)
  have hperm : (lib.children obj).Perm list :=
    (List.perm_ext_iff_of_nodup hnodup (hsorted.imp Nat.ne_of_lt)).mpr fun other => mem_children.trans (hmem other).symm
  exact hperm.eq_of_pairwise' (List.pairwise_insertionSort _ _) (hsorted.imp Nat.le_of_lt)

theorem children_congr (hobjects : lib'.objects = lib.objects) (hgnodes : lib'.gnodes = lib.gnodes) :
    lib'.children obj = lib.children obj := by
  unfold children child_nodes
  rw [hobjects, hgnodes]

/-- What is visited is what is below the object. -/
theorem visit_mem_walk (htree : lib.TreeBelow levels obj) {handle : UInt64} :
    (∃ count, Visit.visit handle count ∈ walk lib ctx levels obj) ↔ ∃ other, ReflTransGen lib.ChildObj obj other ∧ handle = lib.handle ctx other := by
  induction levels generalizing obj with
  | zero => exact htree.elim
  | succ levels ih =>
    have hchild : ∀ child ∈ lib.children obj, lib.TreeBelow levels child := fun child hchild =>
      htree.2.2 child (mem_children.mp hchild)
    constructor
    · rintro ⟨count, hmem⟩
      rw [walk, List.mem_cons, List.mem_append, List.mem_singleton] at hmem
      rcases hmem with hself | hbelow | hleave
      · injection hself with hhandle
        exact ⟨obj, .refl, hhandle⟩
      · obtain ⟨child, hmem, hvisit⟩ := List.mem_flatMap.mp hbelow
        obtain ⟨other, hother, hhandle⟩ := (ih (hchild child hmem)).mp ⟨count, hvisit⟩
        exact ⟨other, .head (mem_children.mp hmem) hother, hhandle⟩
      · cases hleave
    · rintro ⟨other, hother, rfl⟩
      rcases below_iff.mp hother with rfl | ⟨child, hmem, hother⟩
      · exact ⟨_, List.mem_cons_self⟩
      · rw [← mem_children] at hmem
        obtain ⟨count, hvisit⟩ := (ih (hchild child hmem)).mpr ⟨other, hother, rfl⟩
        refine ⟨count, List.mem_cons_of_mem _ (List.mem_append_left _ ?_)⟩
        exact List.mem_flatMap.mpr ⟨child, hmem, hvisit⟩

end Walk

section Walked

variable {σ : Type} {visitor : Visitor σ} {lib : Library} {ctx : Nat} {t t' t'' : Traversal σ}

/-- What the functions do with an object does not depend on the groups that there are. -/
def Visitor.Stable (visitor : Visitor σ) (lib : Library) (ctx : Nat) : Prop :=
  ∀ lib', lib.Extended lib' → ∀ obj ∈ lib.objects, ∀ child_count,
    visitor.visit_function lib' (lib.handle ctx obj) child_count = visitor.visit_function lib (lib.handle ctx obj) child_count ∧
      visitor.leave_function lib' (lib.handle ctx obj) child_count = visitor.leave_function lib (lib.handle ctx obj) child_count

/-- What a traversal does: it makes the calls and leaves that many groups behind. -/
structure Walked (visitor : Visitor σ) (lib : Library) (t : Traversal σ) (calls : List Visit) (left : Nat)
    (t' : Traversal σ) : Prop where
  extended : t.lib.Extended t'.lib
  data : t'.data = calls.foldl (visitor.call lib) t.data
  errors : t'.errors = t.errors
  groups : t'.lib.groups.keys.card = t.lib.groups.keys.card + left
  room : ∀ records, t.lib.RoomFor (left + records) → t'.lib.RoomFor records

theorem Walked.trans {visits visits' : List Visit} {groups groups' : Nat} (h : Walked visitor lib t visits groups t')
    (h' : Walked visitor lib t' visits' groups' t'') : Walked visitor lib t (visits ++ visits') (groups + groups') t'' where
  extended := h.extended.trans h'.extended
  data := by rw [h'.data, h.data, List.foldl_append]
  errors := h'.errors.trans h.errors
  groups := by rw [h'.groups, h.groups, Nat.add_assoc]
  room records hroom := h'.room records (h.room _ (by rwa [Nat.add_assoc] at hroom))

theorem Walked.refl (hwf : t.lib.WellFormed) : Walked visitor lib t [] 0 t :=
  ⟨.refl hwf, rfl, rfl, rfl, fun records hroom => by rwa [Nat.zero_add] at hroom⟩

/-- A call for an object is the one in the library at the start. -/
theorem Visitor.Stable.call (hstable : visitor.Stable lib ctx) {lib' : Library} (hextended : lib.Extended lib') {obj : Nat}
    (hobj : obj ∈ lib.objects) (child_count : Int) (data : σ) :
    visitor.call lib' data (.visit (lib.handle ctx obj) child_count) =
        visitor.call lib data (.visit (lib.handle ctx obj) child_count) ∧
      visitor.call lib' data (.leave (lib.handle ctx obj) child_count) =
        visitor.call lib data (.leave (lib.handle ctx obj) child_count) := by
  obtain ⟨hvisit, hleave⟩ := hstable lib' hextended obj hobj child_count
  exact ⟨congrFun hvisit data, congrFun hleave data⟩

theorem Walked.call (hwf : t.lib.WellFormed) {visit : Visit}
    (hcall : visitor.call t.lib t.data visit = visitor.call lib t.data visit) :
    Walked visitor lib t [visit] 0 (t.call visitor visit) :=
  ⟨.refl hwf, hcall, rfl, rfl, fun records hroom => by rwa [Nat.zero_add] at hroom⟩

/-- A group of the children is one group more. -/
theorem Walked.enter {c : Context} {new : Alloc} {list : List Nat} {lib1 : Library}
    (htemp : TempGroup t.lib ctx c new list lib1) {visit : Visit}
    (hcall : visitor.call lib1 t.data visit = visitor.call lib t.data visit) :
    Walked visitor lib t [visit] 1 (Traversal.call visitor visit { t with lib := lib1, allocs := t.allocs + 1 }) where
  extended := htemp.extended
  data := hcall
  errors := rfl
  groups := by
    have hnew : new.address ∉ t.lib.groups.keys := fun hmem => htemp.made.unused .GROUP (Finmap.mem_keys.mp hmem)
    have hkeys : lib1.groups.keys = insert new.address t.lib.groups.keys := by
      ext key
      rw [Finset.mem_insert, Finmap.mem_keys, Finmap.mem_keys, htemp.made.groups, Finmap.mem_insert]
    exact (congrArg Finset.card hkeys).trans (Finset.card_insert_of_notMem hnew)
  room records hroom := htemp.room (by rwa [Nat.add_comm] at hroom)

section Loop

variable {lib0 lib1 : Library} {c : Context} {new : Alloc} {list : List Nat} {levels : Nat}
  {traverse : Nat → UInt64 → Traversal σ → Option (Traversal σ)} {visits : Nat → List Visit} {groups : Nat → Nat}

/-- Where each child is walked through as it should be, so are all those that are left. -/
theorem traverse_loop_spec (htemp : TempGroup lib0 ctx c new list lib1) (hctx : ctx ∈ lib0.contexts)
    (hobjects : ∀ child ∈ list, child ∈ lib0.objects)
    (htraverse : ∀ child ∈ list, ∀ t : Traversal σ, lib1.Extended t.lib → t.lib.RoomFor (groups child) → ∃ t',
      (∀ depth ≥ levels, traverse depth (t.lib.handle ctx child) t = some t') ∧
        Walked visitor lib t (visits child) (groups child) t')
    {left idx : Nat} (hlength : idx + left = list.length) (child : UInt64) (t : Traversal σ) (hextended : lib1.Extended t.lib)
    (hroom : t.lib.RoomFor ((list.drop idx).map groups).sum) :
    ∃ t', (∀ depth ≥ levels, traverse_loop (traverse depth) (lib1.handle ctx new.address) left idx child t = some t') ∧
      Walked visitor lib t ((list.drop idx).flatMap visits) ((list.drop idx).map groups).sum t' := by
  induction left generalizing idx child t with
  | zero =>
    refine ⟨t, fun depth _ => rfl, ?_⟩
    rw [List.drop_of_length_le (show list.length ≤ idx by omega)]
    exact .refl hextended.wf
  | succ left ih =>
    have hidx : idx < list.length := by omega
    have hmem : list[idx] ∈ list := List.getElem_mem hidx
    have hdrop : list.drop idx = list[idx] :: list.drop (idx + 1) := List.drop_eq_getElem_cons hidx
    rw [hdrop, List.map_cons, List.sum_cons] at hroom
    rw [hdrop, List.flatMap_cons, List.map_cons, List.sum_cons]
    have hget := cnctl.member_extended htemp hctx hobjects hextended hidx
    obtain ⟨t1, hwalk, hwalked⟩ := htraverse _ hmem t hextended (by unfold RoomFor at hroom ⊢; omega)
    obtain ⟨t', hloop, hwalked'⟩ := @ih (idx + 1) (by omega) (t.lib.handle ctx list[idx]) t1
      (hextended.trans hwalked.extended) (hwalked.room _ hroom)
    refine ⟨t', fun depth hdepth => ?_, hwalked.trans hwalked'⟩
    rw [traverse_loop]
    simp only [hget, success, if_true, hwalk depth hdepth]
    exact hloop depth hdepth

end Loop

/-- The traversal of a tree of objects makes the calls of the walk through it, each as in the library at the start. -/
theorem traverse_walked [GSequence] {malloc : Nat → Library → Alloc} (hmalloc : cnctl.Allocates malloc)
    (hstable : visitor.Stable lib ctx) (hctx : ctx ∈ lib.contexts) {levels obj : Nat} (htree : lib.TreeBelow levels obj)
    (t : Traversal σ) (hextended : lib.Extended t.lib) (hroom : t.lib.RoomFor (parents lib levels obj)) :
    ∃ t', (∀ depth ≥ levels, traverse_pre_order visitor malloc depth (lib.handle ctx obj) t = some t') ∧
      Walked visitor lib t (walk lib ctx levels obj) (parents lib levels obj) t' := by
  induction levels generalizing obj t with
  | zero => exact htree.elim
  | succ levels ih =>
    have hctx' : ctx ∈ t.lib.contexts := hextended.live .CONTEXT ctx hctx
    obtain ⟨c, hc⟩ := Finmap.mem_iff.mp hctx'
    have htree' : t.lib.TreeBelow (levels + 1) obj := htree.congr hextended.objects hextended.gnodes
    have hhandle : t.lib.handle ctx obj = lib.handle ctx obj := hextended.handle_eq hctx htree.mem
    have hchildren : t.lib.children obj = lib.children obj := children_congr hextended.objects hextended.gnodes
    by_cases hnone : t.lib.child_nodes obj = []
    · have hget := htree'.no_children hextended.wf hctx' hnone (malloc t.allocs t.lib)
      have hempty : lib.children obj = [] := by rw [← hchildren, children, hnone]; rfl
      have hstatus : PWR_RET_WARN_NO_CHILDREN ≠ PWR_RET_SUCCESS := by decide
      have hcalls := fun data => hstable.call hextended htree.mem 0 data
      rw [walk, parents, hempty, if_pos rfl]
      refine ⟨(t.call visitor (.visit (lib.handle ctx obj) 0)).call visitor (.leave (lib.handle ctx obj) 0), ?_,
        (Walked.call hextended.wf (hcalls _).1).trans (Walked.call (t := t.call visitor _) hextended.wf (hcalls _).2)⟩
      rintro (_ | depth) hdepth
      · omega
      · rw [hhandle] at hget
        simp only [traverse_pre_order, hget, if_neg hstatus, if_true]
    · have hsome : t.lib.children obj ≠ [] := by
        obtain ⟨node, hnode⟩ := List.exists_mem_of_ne_nil _ hnone
        obtain ⟨gnode, hlookup⟩ := Finmap.mem_iff.mp (htree'.2.1 node hnode)
        exact List.ne_nil_of_mem (mem_children.mpr ⟨node, hnode, gnode, hlookup, rfl⟩)
      rw [hchildren] at hsome
      rw [parents, if_neg hsome] at hroom
      obtain ⟨hunused, hdraws⟩ := hmalloc t.allocs t.lib hroom.free_key
      obtain ⟨list, lib1, hget, htemp, hsorted, hlist⟩ := htree'.children_sorted hextended.wf hc hnone hunused hdraws
      have hlib1 : lib.Extended lib1 := hextended.trans htemp.extended
      have hlist' : ∀ child ∈ list, lib.TreeBelow levels child := by
        intro child hchild
        rw [← children_eq hsorted hlist, hchildren] at hchild
        exact htree.2.2 child (mem_children.mp hchild)
      rw [hhandle] at hget
      rw [parents, if_neg hsome, walk]
      rw [← hchildren, children_eq hsorted hlist] at hroom ⊢
      have hobjects : ∀ child ∈ list, child ∈ t.lib.objects := fun child hchild =>
        hextended.objects ▸ (hlist' child hchild).mem
      have htraverse : ∀ child ∈ list, ∀ t1 : Traversal σ, lib1.Extended t1.lib → t1.lib.RoomFor (parents lib levels child) →
          ∃ t', (∀ depth ≥ levels, traverse_pre_order visitor malloc depth (t1.lib.handle ctx child) t1 = some t') ∧
            Walked visitor lib t1 (walk lib ctx levels child) (parents lib levels child) t' := by
        intro child hchild t1 hextended1 hroom1
        have hextended' := hlib1.trans hextended1
        rw [hextended'.handle_eq hctx (hlist' child hchild).mem]
        exact ih (hlist' child hchild) t1 hextended' hroom1
      have hcalls := fun (lib' : Library) (hlib' : lib.Extended lib') data =>
        hstable.call hlib' htree.mem (list.length : Int) data
      have hentered := Walked.enter htemp (hcalls lib1 hlib1 t.data).1
      obtain ⟨t1, hloop, hwalked⟩ := traverse_loop_spec htemp hctx' hobjects htraverse (Nat.zero_add list.length) 0
        (Traversal.call visitor (.visit (lib.handle ctx obj) list.length) { t with lib := lib1, allocs := t.allocs + 1 })
        (.refl htemp.made.wf) (htemp.room hroom)
      have hleft := Walked.call hwalked.extended.wf (hcalls t1.lib (hlib1.trans hwalked.extended) t1.data).2
      have hall := (hentered.trans hwalked).trans hleft
      rw [Nat.add_zero, Nat.add_comm 1] at hall
      refine ⟨_, ?_, hall⟩
      obtain ⟨hgroup, hlookup⟩ := htemp.find_extended hctx' (.refl htemp.made.wf)
      rintro (_ | depth) hdepth
      · omega
      · simp only [traverse_pre_order, hget, success, if_true, PWR_GrpGetNumObjs, hgroup, hlookup, Int.toNat_natCast]
        rw [hloop depth (Nat.le_of_succ_le_succ hdepth), Option.map_some]

/-- The traversal enters exactly the object and those below it, each before and leaves it after its children, which come
in the order of their addresses, and leaves one group behind for each object that has children. -/
theorem traverse_pre_order_walk [GSequence] {malloc : Nat → Library → Alloc} (hmalloc : cnctl.Allocates malloc)
    (t : Traversal σ) (hwf : t.lib.WellFormed) (hstable : visitor.Stable t.lib ctx) (hctx : ctx ∈ t.lib.contexts)
    {levels obj : Nat} (htree : t.lib.TreeBelow levels obj) (hroom : t.lib.RoomFor (parents t.lib levels obj)) :
    ∃ t', (∀ depth ≥ levels, traverse_pre_order visitor malloc depth (t.lib.handle ctx obj) t = some t') ∧
      t'.data = (walk t.lib ctx levels obj).foldl (visitor.call t.lib) t.data ∧
      (∀ handle, (∃ child_count, .visit handle child_count ∈ walk t.lib ctx levels obj) ↔
        ∃ other, ReflTransGen t.lib.ChildObj obj other ∧ handle = t.lib.handle ctx other) ∧
      t'.errors = t.errors ∧ t'.lib.groups.keys.card = t.lib.groups.keys.card + parents t.lib levels obj := by
  obtain ⟨t', hresult, hwalked⟩ := traverse_walked hmalloc hstable hctx htree t (.refl hwf) hroom
  exact ⟨t', hresult, hwalked.data, fun handle => visit_mem_walk htree, hwalked.errors, hwalked.groups⟩

end Walked

/-- Keeps the calls. -/
def recorder : Visitor (List Visit) where
  visit_function _ object child_count calls := calls ++ [.visit object child_count]
  leave_function _ object child_count calls := calls ++ [.leave object child_count]

/-- A node and its socket: two objects are entered, and one group is left. -/
theorem traverse_pre_order_walk_socket : ∃ t',
    @traverse_pre_order _ recorder ordered_sequence cnctl.fresh_alloc 2 (Library.node_with_socket.handle 1 10)
        { lib := Library.node_with_socket, data := [] } = some t' ∧
      t'.data = [.visit (Library.node_with_socket.handle 1 10) 1, .visit (Library.node_with_socket.handle 1 20) 0,
        .leave (Library.node_with_socket.handle 1 20) 0, .leave (Library.node_with_socket.handle 1 10) 1] ∧
      t'.lib.groups.keys.card = Library.node_with_socket.groups.keys.card + 1 := by
  obtain ⟨t', hresult, hdata, -, -, hgroups⟩ := @traverse_pre_order_walk _ recorder 1 ordered_sequence cnctl.fresh_alloc
    cnctl.fresh_alloc_allocates { lib := Library.node_with_socket, data := [] } Library.node_with_socket_wellFormed
    (fun _ _ _ _ _ => ⟨rfl, rfl⟩) (by decide) 2 10 cnctl.node_with_socket_tree (by unfold Library.RoomFor; decide)
  exact ⟨t', hresult 2 le_rfl, hdata.trans (by decide), hgroups⟩

end pwrcmd

end pwrapi
