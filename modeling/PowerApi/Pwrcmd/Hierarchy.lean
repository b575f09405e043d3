import PowerApi.Ipc.Socket
import PowerApi.Pwrcmd.Traverse

open Relation

namespace pwrapi

/-- `obj_name`, which has no string for a type outside the table. -/
def obj_name : PwrObjType → Option String
  | .PLATFORM => some "PWR_OBJ_PLATFORM"
  | .CABINET => some "PWR_OBJ_CABINET"
  | .CHASSIS => some "PWR_OBJ_CHASSIS"
  | .BOARD => some "PWR_OBJ_BOARD"
  | .NODE => some "PWR_OBJ_NODE"
  | .SOCKET => some "PWR_OBJ_SOCKET"
  | .CORE => some "PWR_OBJ_CORE"
  | .POWER_PLANE => some "PWR_OBJ_POWER_PLANE"
  | .MEM => some "PWR_OBJ_MEM"
  | .NIC => some "PWR_OBJ_NIC"
  | .HT => some "PWR_OBJ_HT"
  | .INVALID | .NOT_SPECIFIED => none

namespace Library

/-- `PWR_ObjGetName`: its status and what `dest` holds afterwards. A character of a name is one byte. -/
def PWR_ObjGetName (object : UInt64) (dest : List Char) (len : Nat) (lib : Library) : Option (Int × List Char) :=
  match lib.opaque_map_lookup_object (OPAQUE_GET_DATA_KEY object) with
  | none => some (PWR_RET_FAILURE, dest)
  | some obj =>
    match lib.objects.lookup obj with
    | none => none
    | some o =>
      let src := o.name.toList
      some (if src.length ≥ len then PWR_RET_WARN_TRUNC else PWR_RET_SUCCESS, src.take (len - 1))

/-- `PWR_ObjAttrGetMeta` for the `PWR_MD_NAME` of an object without an attribute: its status and what `value` holds
afterwards. -/
def PWR_ObjAttrGetMeta_NAME (obj : UInt64) (value : List Char) (lib : Library) : Option (Int × List Char) :=
  match lib.opaque_map_lookup_context (OPAQUE_GET_CONTEXT_KEY obj) with
  | none => some (PWR_RET_BAD_VALUE, value)
  | some _ =>
    match lib.opaque_map_lookup_object (OPAQUE_GET_DATA_KEY obj) with
    | none => some (PWR_RET_BAD_VALUE, value)
    | some object =>
      match lib.objects.lookup object with
      | none => none
      | some o => (obj_name o.type).map fun name => (PWR_RET_SUCCESS, name.toList)

end Library

namespace pwrcmd

open Library

/-- The level of the object, and the lines printed so far. -/
structure TextHier where
  level : Int := 0
  printed : List (List Char) := []
  deriving DecidableEq

def indent (level : Int) : List Char := (List.replicate (level - 1).toNat [' ', ' ', ' ', ' ']).flatten

/-- The lines of an object at its level. -/
def entry (level : Int) (name type : List Char) : List (List Char) :=
  (if level > 1 then [indent level ++ ['|']] else []) ++
    [indent level ++ (['+', '-', '>', ' '] ++ name ++ [' ', '('] ++ type ++ [')'])]

def text_hier_enter (lib : Library) (object : UInt64) (t : TextHier) : Option TextHier := do
  let level := t.level + 1
  let (_, name) ← lib.PWR_ObjGetName object [] PWR_MAX_STRING_LEN
  let (_, type) ← lib.PWR_ObjAttrGetMeta_NAME object []
  return { level, printed := t.printed ++ entry level name type }

def text_hier_leave (t : TextHier) : TextHier := { t with level := t.level - 1 }

def text_hier : Visitor (Option TextHier) where
  visit_function lib object _ t := t.bind (text_hier_enter lib object)
  leave_function _ _ _ t := t.map text_hier_leave

def header : List (List Char) :=
  [[], ['O', 'b', 'j', 'e', 'c', 't', ' ', 'H', 'i', 'e', 'r', 'a', 'r', 'c', 'h', 'y'], List.replicate 16 '-']

/-- `print_hierarchy_list` without JSON. -/
def print_hierarchy_list [GSequence] (malloc : Nat → Library → Alloc) (depth : Nat) (ctx : UInt64) (lib : Library) :
    Option (Traversal (Option TextHier)) := do
  let reply ← lib.PWR_CntxtGetEntryPoint ctx
  -- the variable stays null where there is no entry point
  let object := if reply.status = PWR_RET_SUCCESS then reply.handle else 0
  traverse_pre_order text_hier malloc depth object { lib, data := some { printed := header } }

/-- The lines for an object and those below it, of which each stands one level deeper than the one it belongs to. -/
def outline (lib : Library) : Nat → Int → Nat → List (List Char)
  | 0, _, _ => []
  | levels + 1, level, obj =>
    (lib.objects.lookup obj).elim [] (fun o =>
      entry level (o.name.toList.take (PWR_MAX_STRING_LEN - 1)) ((obj_name o.type).elim [] String.toList)) ++
    (lib.children obj).flatMap (outline lib levels (level + 1))

/-- Every object has a type that has a name. -/
def Named (lib : Library) : Prop := ∀ obj o, lib.objects.lookup obj = some o → ∃ name, obj_name o.type = some name

section Text

variable {lib lib' : Library} {ctx obj levels : Nat}

theorem PWR_ObjGetName_handle (hwf : lib.WellFormed) (hctx : ctx ∈ lib.contexts) {o : Obj}
    (ho : lib.objects.lookup obj = some o) (dest : List Char) (len : Nat) :
    lib.PWR_ObjGetName (lib.handle ctx obj) dest len =
      some (if o.name.toList.length ≥ len then PWR_RET_WARN_TRUNC else PWR_RET_SUCCESS, o.name.toList.take (len - 1)) := by
  have hobj : obj ∈ lib.objects := Finmap.mem_of_lookup_eq_some ho
  have hfound : lib.opaque_map_lookup_object (lib.opaque_key obj) = some obj := (hwf.keyed .OBJECT obj hobj).found
  simp only [PWR_ObjGetName, handle, (hwf.unpack .OBJECT hctx hobj).2, hfound, ho]

theorem text_hier_enter_handle (hwf : lib.WellFormed) (hctx : ctx ∈ lib.contexts) {o : Obj}
    (ho : lib.objects.lookup obj = some o) (t : TextHier) :
    text_hier_enter lib (lib.handle ctx obj) t = (obj_name o.type).map fun name =>
      { level := t.level + 1,
        printed := t.printed ++ entry (t.level + 1) (o.name.toList.take (PWR_MAX_STRING_LEN - 1)) name.toList } := by
  have hobj : obj ∈ lib.objects := Finmap.mem_of_lookup_eq_some ho
  obtain ⟨hcontext, hdata⟩ := hwf.unpack .OBJECT hctx hobj
  have hfound : lib.opaque_map_lookup_object (lib.opaque_key obj) = some obj := (hwf.keyed .OBJECT obj hobj).found
  have hctx_found : lib.opaque_map_lookup_context (lib.opaque_key ctx) = some ctx := (hwf.keyed .CONTEXT ctx hctx).found
  rw [text_hier_enter, PWR_ObjGetName_handle hwf hctx ho]
  simp only [PWR_ObjAttrGetMeta_NAME, handle, hcontext, hdata, hfound, hctx_found, ho]
  cases obj_name o.type <;> rfl

/-- The lines of an object are the same whatever groups there are. -/
theorem text_hier_stable (hwf : lib.WellFormed) (hctx : ctx ∈ lib.contexts) : text_hier.Stable lib ctx := by
  intro lib' hextended obj hobj child_count
  refine ⟨?_, rfl⟩
  obtain ⟨o, ho⟩ := Finmap.mem_iff.mp hobj
  have ho' : lib'.objects.lookup obj = some o := by rw [hextended.objects, ho]
  have henter : text_hier_enter lib' (lib.handle ctx obj) = text_hier_enter lib (lib.handle ctx obj) := by
    funext t
    rw [text_hier_enter_handle hwf hctx ho, ← hextended.handle_eq hctx hobj,
      text_hier_enter_handle hextended.wf (hextended.live .CONTEXT ctx hctx) ho']
  exact congrArg (fun enter t => Option.bind t enter) henter

/-- The calls of the walk print the outline, and the level is the same afterwards. -/
theorem walk_outline (hwf : lib.WellFormed) (hctx : ctx ∈ lib.contexts) (hnamed : Named lib)
    (htree : lib.TreeBelow levels obj) (t : TextHier) :
    (walk lib ctx levels obj).foldl (text_hier.call lib) (some t) =
      some { t with printed := t.printed ++ outline lib levels (t.level + 1) obj } := by
  induction levels generalizing obj t with
  | zero => exact htree.elim
  | succ levels ih =>
    have hbelow : ∀ (list : List Nat), (∀ child ∈ list, lib.TreeBelow levels child) → ∀ t : TextHier,
        (list.flatMap (walk lib ctx levels)).foldl (text_hier.call lib) (some t) =
          some { t with printed := t.printed ++ list.flatMap (outline lib levels (t.level + 1)) } := by
      intro list
      induction list with
      | nil =>
        intro _ t
        rw [List.flatMap_nil, List.flatMap_nil, List.append_nil]
        rfl
      | cons child list ih_list =>
        intro htrees t
        rw [List.forall_mem_cons] at htrees
        rw [List.flatMap_cons, List.foldl_append, ih htrees.1, ih_list htrees.2, List.flatMap_cons, List.append_assoc]
    obtain ⟨o, ho⟩ := Finmap.mem_iff.mp htree.mem
    obtain ⟨name, hname⟩ := hnamed obj o ho
    have henter := text_hier_enter_handle hwf hctx ho t
    rw [hname, Option.map_some] at henter
    have hchildren : ∀ child ∈ lib.children obj, lib.TreeBelow levels child := fun child hchild =>
      htree.2.2 child (mem_children.mp hchild)
    have hvisit : text_hier.call lib (some t) (.visit (lib.handle ctx obj) (lib.children obj).length) =
        some { level := t.level + 1,
               printed := t.printed ++ entry (t.level + 1) (o.name.toList.take (PWR_MAX_STRING_LEN - 1)) name.toList } :=
      henter
    have houtline : outline lib (levels + 1) (t.level + 1) obj =
        entry (t.level + 1) (o.name.toList.take (PWR_MAX_STRING_LEN - 1)) name.toList ++
          (lib.children obj).flatMap (outline lib levels (t.level + 1 + 1)) := by
      rw [outline, ho, Option.elim_some, hname, Option.elim_some]
    rw [walk, List.foldl_cons, List.foldl_append, hvisit, hbelow _ hchildren, houtline, ← List.append_assoc]
    exact congrArg (fun level => some (TextHier.mk level _)) (Int.add_sub_cancel t.level 1)

/-- The object of a context at which its hierarchy begins. -/
def EntryPoint (lib : Library) (ctx obj : Nat) : Prop :=
  ∃ c node gnode, lib.contexts.lookup ctx = some c ∧ c.entry_point = some node ∧ lib.gnodes.lookup node = some gnode ∧
    gnode.data = obj

theorem EntryPoint.mem (hentry : EntryPoint lib ctx obj) : ctx ∈ lib.contexts := by
  obtain ⟨c, node, gnode, hc, -⟩ := hentry
  exact Finmap.mem_of_lookup_eq_some hc

theorem EntryPoint.get (hwf : lib.WellFormed) (hentry : EntryPoint lib ctx obj) (hobj : obj ∈ lib.objects) :
    lib.PWR_CntxtGetEntryPoint (Navigation.context_handle lib ctx) = some (success (lib.handle ctx obj)) := by
  have hctx := hentry.mem
  obtain ⟨c, node, gnode, hc, hnode, hlookup, rfl⟩ := hentry
  obtain ⟨hcontext, hdata⟩ := hwf.unpack .CONTEXT hctx hctx
  have hfound : lib.opaque_map_lookup_context (lib.opaque_key ctx) = some ctx := (hwf.keyed .CONTEXT ctx hctx).found
  simp only [PWR_CntxtGetEntryPoint, Navigation.context_handle, hcontext, hdata, hfound, ne_eq, not_true_eq_false, if_false,
    hc, hnode, hlookup, hobj, if_true]
  rfl

/-- The hierarchy is printed as the outline of its objects, and one group is left behind for each of them that has
children. -/
theorem print_hierarchy_list_outline [GSequence] {malloc : Nat → Library → Alloc} (hmalloc : cnctl.Allocates malloc)
    (hwf : lib.WellFormed) (hentry : EntryPoint lib ctx obj) (htree : lib.TreeBelow levels obj) (hnamed : Named lib)
    (hroom : lib.RoomFor (parents lib levels obj)) :
    ∃ t, (∀ depth ≥ levels, print_hierarchy_list malloc depth (Navigation.context_handle lib ctx) lib = some t) ∧
      t.data = some { level := 0, printed := header ++ outline lib levels 1 obj } ∧ t.errors = [] ∧
      t.lib.groups.keys.card = lib.groups.keys.card + parents lib levels obj := by
  have hctx := hentry.mem
  have hget := hentry.get hwf htree.mem
  obtain ⟨t, hresult, hwalked⟩ := traverse_walked hmalloc (text_hier_stable hwf hctx) hctx htree
    { lib, data := some { printed := header } } (.refl hwf) hroom
  refine ⟨t, fun depth hdepth => ?_, ?_, hwalked.errors, hwalked.groups⟩
  · rw [print_hierarchy_list, hget]
    exact hresult depth hdepth
  · rw [hwalked.data]
    exact walk_outline hwf hctx hnamed htree { printed := header }

end Text

theorem node_with_socket_named : Named Library.node_with_socket := by
  intro obj o ho
  simp only [Library.node_with_socket, HashTable.lookup_insert_eq_ite, Finmap.lookup_empty] at ho
  split at ho
  · cases ho
    exact ⟨_, rfl⟩
  · split at ho
    · cases ho
      exact ⟨_, rfl⟩
    · cases ho

/-- A node and its socket. -/
theorem print_hierarchy_list_outline_socket : ∃ t,
    @print_hierarchy_list ordered_sequence cnctl.fresh_alloc 2 (Navigation.context_handle Library.node_with_socket 1)
        Library.node_with_socket = some t ∧
      t.data = some { level := 0, printed := header ++
        [['+', '-', '>', ' '] ++ "node".toList ++ [' ', '('] ++ "PWR_OBJ_NODE".toList ++ [')'],
          [' ', ' ', ' ', ' ', '|'],
          [' ', ' ', ' ', ' '] ++ (['+', '-', '>', ' '] ++ "socket.0".toList ++ [' ', '('] ++ "PWR_OBJ_SOCKET".toList ++
            [')'])] } ∧ t.errors = [] ∧
      t.lib.groups.keys.card = Library.node_with_socket.groups.keys.card + 1 := by
  obtain ⟨t, hresult, hdata, herrors, hgroups⟩ := @print_hierarchy_list_outline Library.node_with_socket 1 10 2
    ordered_sequence cnctl.fresh_alloc cnctl.fresh_alloc_allocates Library.node_with_socket_wellFormed
    ⟨{ entry_point := some 11 }, 11, { data := 10, parent := none, children := [21] },
      by decide, rfl, by decide, rfl⟩ cnctl.node_with_socket_tree node_with_socket_named
    (by unfold Library.RoomFor; decide)
  exact ⟨t, hresult 2 le_rfl, hdata.trans (by rfl), herrors, hgroups⟩

end pwrcmd

end pwrapi
