import PowerApi.X86.HierarchyTree

open Execution HashTable NaryTree

namespace pwrapi.x86

/-- A call of `hierarchy_insert`, with the address of the object and the tree node that it gets. -/
structure Insertion where
  parent : Option Nat
  address : Nat
  obj : HierObj
  gnode : Option Nat

def Insertion.perform (call : Insertion) (h : Hierarchy) : Int × Hierarchy :=
  h.hierarchy_insert call.parent call.address call.obj call.gnode

namespace Hierarchy

/-- Climbing from the node ends at the root of the tree. -/
def InTree (h : Hierarchy) (g : Nat) : Prop :=
  ∃ root, h.tree = some root ∧ Relation.ReflTransGen (ParentOf h.gnodes) g root

/-- All nodes are linked in one tree, which contains the objects of the name map, each once. -/
structure OneTree (h : Hierarchy) : Prop where
  linked : ∀ root, h.tree = some root → IsTree root h.gnodes
  mapped : ∀ a, (∃ name, h.map.lookup name = some a) ↔ ∃ g n, h.InTree g ∧ h.gnodes.lookup g = some n ∧ n.data = a
  once : ∀ g g' n n', h.gnodes.lookup g = some n → h.gnodes.lookup g' = some n' → n.data = n'.data → g = g'

/-- What the table above `hierarchy_insert` says: a new node is a child of the given parent, or
else of the root, or the root itself. No node leaves the tree. -/
structure Documented (h : Hierarchy) (step : Insertion × Int) (h' : Hierarchy) : Prop where
  one_tree : h'.OneTree
  failed : step.2 ≠ PWR_RET_SUCCESS → h' = h
  root : step.2 = PWR_RET_SUCCESS → step.1.parent = none → h.tree = none → h'.tree = step.1.gnode
  child : step.2 = PWR_RET_SUCCESS → ∀ p g, (step.1.parent <|> h.tree) = some p → step.1.gnode = some g →
    ParentOf h'.gnodes g p
  kept : ∀ g, h.InTree g → h'.InTree g

/-- A step of the runs: a new object with a name of its own is inserted below a node of the
tree, or without a parent. -/
structure InsertStep (h : Hierarchy) (step : Insertion × Int) (h' : Hierarchy) : Prop where
  parent : ∀ p, step.1.parent = some p → h.InTree p
  name : h.map.lookup step.1.obj.name = none
  object : h.objects.lookup step.1.address = none
  gnode : ∀ g, step.1.gnode = some g → h.gnodes.lookup g = none
  performed : step.1.perform h = (step.2, h')

/-- Nothing is inserted without a parent into a tree that has a root. -/
def Insertion.KeepsRoot (h : Hierarchy) (call : Insertion) : Prop :=
  call.parent = none → call.gnode ≠ none → h.tree = none

variable {h : Hierarchy} {g a : Nat} {o : HierObj}

theorem Corresponds.inTree_iff (hc : h.Corresponds) : h.InTree g ↔ g ∈ h.gnodes := by
  obtain ⟨root, hroot, htree⟩ := hc.tree
  constructor
  · rintro ⟨root', hroot', hclimb⟩
    obtain rfl := Option.some.inj (hroot.symm.trans hroot')
    rcases Relation.ReflTransGen.cases_head hclimb with rfl | ⟨p, hparent, _⟩
    · exact htree.root_mem
    · obtain ⟨n, hn, _⟩ := Option.bind_eq_some_iff.mp hparent
      exact Finmap.mem_of_lookup_eq_some hn
  · exact fun hg => ⟨root, hroot, htree.reaches g hg⟩

theorem Corresponds.oneTree (hc : h.Corresponds) : h.OneTree where
  linked root hroot := by
    obtain ⟨root', hroot', htree⟩ := hc.tree
    obtain rfl := Option.some.inj (hroot'.symm.trans hroot)
    exact htree
  mapped a := by
    constructor
    · rintro ⟨name, ha⟩
      obtain ⟨o, g, n, _, _, _, hn, hdata⟩ := hc.mapped name a ha
      exact ⟨g, n, hc.inTree_iff.mpr (Finmap.mem_of_lookup_eq_some hn), hn, hdata⟩
    · rintro ⟨g, n, _, hn, rfl⟩
      obtain ⟨o, _, _, hmap⟩ := hc.node g n hn
      exact ⟨o.name, hmap⟩
  once g g' n n' hn hn' hdata := by
    obtain ⟨o, ho, hg, _⟩ := hc.node g n hn
    obtain ⟨o', ho', hg', _⟩ := hc.node g' n' hn'
    rw [hdata, ho'] at ho
    obtain rfl := Option.some.inj ho
    exact Option.some.inj (hg.symm.trans hg')

theorem oneTree_empty : ({} : Hierarchy).OneTree where
  linked _ hroot := nomatch hroot
  mapped a := by
    constructor
    · rintro ⟨name, ha⟩
      rw [Finmap.lookup_empty] at ha
      cases ha
    · rintro ⟨g, n, _, hn, _⟩
      rw [Finmap.lookup_empty] at hn
      cases hn
  once g _ n _ hn _ _ := by
    rw [Finmap.lookup_empty] at hn
    cases hn

section Insert

/-- An object without a parent in an empty hierarchy. -/
theorem documented_root (a g : Nat) (o : HierObj) {h' : Hierarchy}
    (hinsert : ({} : Hierarchy).hierarchy_insert none a o (some g) = (PWR_RET_SUCCESS, h')) :
    h'.Corresponds ∧ Documented {} (⟨none, a, o, some g⟩, PWR_RET_SUCCESS) h' := by
  have hc := corresponds_root a g o
  rw [hinsert] at hc
  refine ⟨hc, hc.oneTree, fun hne => absurd rfl hne, fun _ _ _ => ?_, fun _ p g' hp => ?_, ?_⟩
  · exact congrArg (fun result => result.2.tree) hinsert.symm
  · cases hp
  · rintro g' ⟨root, hroot, _⟩
    cases hroot

/-- An object below a node of the tree. -/
theorem Corresponds.documented_child (hc : h.Corresponds) {p : Nat} (hp : h.InTree p)
    (hg : h.gnodes.lookup g = none) (ha : h.objects.lookup a = none) (hfree : h.map.lookup o.name = none) :
    (h.attach p a o g).Corresponds ∧ Documented h (⟨some p, a, o, some g⟩, PWR_RET_SUCCESS) (h.attach p a o g) := by
  obtain ⟨n, hn⟩ := Finmap.mem_iff.mp (hc.inTree_iff.mp hp)
  have hc' := hc.attach hn hg ha hfree
  refine ⟨hc', hc'.oneTree, fun hne => absurd rfl hne, fun _ hnone => (nomatch hnone), fun _ p' g' hp' hg' => ?_,
    fun g' hg' => ?_⟩
  · obtain rfl : p = p' := Option.some.inj hp'
    obtain rfl := Option.some.inj hg'
    exact (parentOf_append_leaf hn hg g p).mpr (Or.inl ⟨rfl, rfl⟩)
  · exact hc'.inTree_iff.mpr ((mem_append_leaf hn g').mpr (Or.inr (hc.inTree_iff.mp hg')))

/-- A second root cuts off what was below the first one. -/
theorem Corresponds.not_oneTree (hc : h.Corresponds) (hg : h.gnodes.lookup g = none)
    (ha : h.objects.lookup a = none) (hfree : h.map.lookup o.name = none) :
    ¬(h.hierarchy_insert none a o (some g)).2.OneTree := by
  intro hone
  have hinsert : (h.hierarchy_insert none a o (some g)).2 =
      { tree := some g, map := h.map.insert o.name a, gnodes := h.gnodes.insert g { data := a },
        objects := h.objects.insert a { o with gnode := some g } } := by
    simp only [hierarchy_insert, map_insert, hfree]
  rw [hinsert] at hone
  obtain ⟨root, hroot, htree⟩ := hc.tree
  obtain ⟨n, hn⟩ := Finmap.mem_iff.mp htree.root_mem
  obtain ⟨first, hfirst, _, hmap⟩ := hc.node root n hn
  have hname : first.name ≠ o.name := by
    intro heq
    rw [heq, hfree] at hmap
    cases hmap
  -- the first root's object is still in the map, but no longer in the tree
  obtain ⟨g₁, n₁, ⟨root₁, hroot₁, hclimb⟩, hn₁, hdata⟩ :=
    (hone.mapped n.data).mp ⟨first.name, by rw [lookup_insert_eq_ite, if_neg hname, hmap]⟩
  obtain rfl : g = root₁ := Option.some.inj hroot₁
  rcases Relation.ReflTransGen.cases_tail hclimb with rfl | ⟨child, _, hparent⟩
  · rw [Finmap.lookup_insert] at hn₁
    obtain rfl := Option.some.inj hn₁
    rw [← hdata, ha] at hfirst
    cases hfirst
  · rw [ParentOf, lookup_insert_eq_ite] at hparent
    split at hparent
    · cases hparent
    · obtain ⟨n', hn', _⟩ := htree.listed child g hparent
      rw [hg] at hn'
      cases hn'

end Insert

/-- The hierarchy as it begins, or with a tree that corresponds to its map. -/
def Grown (h : Hierarchy) : Prop := h = {} ∨ h.Corresponds

theorem Grown.oneTree (hgrown : h.Grown) : h.OneTree := by
  rcases hgrown with rfl | hc
  · exact oneTree_empty
  · exact hc.oneTree

theorem Grown.corresponds (hgrown : h.Grown) {root : Nat} (hroot : h.tree = some root) : h.Corresponds := by
  rcases hgrown with rfl | hc
  · cases hroot
  · exact hc

theorem Grown.empty (hgrown : h.Grown) (hnone : h.tree = none) : h = {} := by
  rcases hgrown with rfl | hc
  · rfl
  · obtain ⟨root, hroot, _⟩ := hc.tree
    rw [hnone] at hroot
    cases hroot

/-- A step does what is documented exactly if it leaves the root. -/
theorem Grown.step {h' : Hierarchy} {step : Insertion × Int} (hgrown : h.Grown) (hstep : InsertStep h step h') :
    (Insertion.KeepsRoot h step.1 → h'.Grown) ∧ (Documented h step h' ↔ Insertion.KeepsRoot h step.1) := by
  obtain ⟨⟨parent, address, obj, gnode⟩, status⟩ := step
  obtain ⟨hparent, hname, hobject, hgnode, hperformed⟩ := hstep
  cases gnode with
  | none =>
    obtain ⟨rfl, rfl⟩ := Prod.mk.inj hperformed
    refine ⟨fun _ => hgrown, iff_of_true ⟨hgrown.oneTree, fun _ => rfl, fun hok => ?_, fun hok => ?_, fun _ => id⟩
      fun _ hne => absurd rfl hne⟩
    · exact absurd (show PWR_RET_FAILURE = PWR_RET_SUCCESS from hok) (by decide)
    · exact absurd (show PWR_RET_FAILURE = PWR_RET_SUCCESS from hok) (by decide)
  | some g =>
    have hg := hgnode g rfl
    cases parent with
    | some p =>
      obtain ⟨root, hroot, _⟩ := hparent p rfl
      have hc := hgrown.corresponds hroot
      obtain ⟨rfl, rfl⟩ := Prod.mk.inj ((hierarchy_insert_attach hname).symm.trans hperformed)
      obtain ⟨hc', hdocumented⟩ := hc.documented_child (hparent p rfl) hg hobject hname
      exact ⟨fun _ => Or.inr hc', iff_of_true hdocumented fun hnone => nomatch hnone⟩
    | none =>
      obtain rfl : PWR_RET_SUCCESS = status := congrArg Prod.fst hperformed
      cases htree : h.tree with
      | none =>
        obtain rfl := hgrown.empty htree
        obtain ⟨hc', hdocumented⟩ := documented_root address g obj hperformed
        exact ⟨fun _ => Or.inr hc', iff_of_true hdocumented fun _ _ => rfl⟩
      | some root =>
        have hnot : ¬Insertion.KeepsRoot h ⟨none, address, obj, some g⟩ := by
          intro hkeeps
          rw [Insertion.KeepsRoot, htree] at hkeeps
          exact nomatch hkeeps rfl (Option.some_ne_none g)
        have hbroken := (hgrown.corresponds htree).not_oneTree hg hobject hname
        rw [show h.hierarchy_insert none address obj (some g) = _ from hperformed] at hbroken
        exact ⟨fun hkeeps => absurd hkeeps hnot, iff_of_false (fun hdoc => hbroken hdoc.one_tree) hnot⟩

/-- In the runs of insertions into an empty hierarchy, every step links its object as documented
and leaves one tree with the objects of the name map exactly if none without a parent is made
after the first. -/
theorem hierarchy_inserts_documented_iff (run : List ((Insertion × Int) × Hierarchy))
    (hrun : EachStep InsertStep {} run) :
    EachStep Documented {} run ↔ EachStep (fun h step _ => Insertion.KeepsRoot h step.1) {} run :=
  hrun.iff_of_invariant (Or.inl rfl) (fun _ _ _ hstep hgrown => (Grown.step hgrown hstep).1)
    fun _ _ _ hstep hgrown => (Grown.step hgrown hstep).2

/-- The run that makes the given insertions. -/
def inserted (calls : List Insertion) : List ((Insertion × Int) × Hierarchy) :=
  run_calls (fun call h => some (call.perform h)) calls {}

/-- The parents of these insertions are the root or its children. -/
theorem inserted_steps {calls : List Insertion}
    (hsteps : EachStep (fun h step _ => (∀ p ∈ step.1.parent, h.tree = some p ∨
        ∃ root ∈ h.tree, (h.gnodes.lookup p).bind Node.parent = some root) ∧
      h.map.lookup step.1.obj.name = none ∧ h.objects.lookup step.1.address = none ∧
      ∀ g ∈ step.1.gnode, h.gnodes.lookup g = none) {} (inserted calls)) :
    EachStep InsertStep {} (inserted calls) := by
  have hcalls := eachStep_run_calls (fun (call : Insertion) h => some (call.perform h)) ({} : Hierarchy) calls
  refine (hsteps.and hcalls).imp ?_
  rintro h step h' ⟨⟨hparent, hname, hobject, hgnode⟩, hperformed⟩
  refine ⟨fun p hp => ?_, hname, hobject, hgnode, Option.some.inj hperformed⟩
  rcases hparent p hp with hroot | ⟨root, hroot, hchild⟩
  · exact ⟨p, hroot, Relation.ReflTransGen.refl⟩
  · exact ⟨root, hroot, Relation.ReflTransGen.single hchild⟩

/-- A node, a socket below it, an object for which there is no tree node, and a core. -/
def socket_with_core : List Insertion :=
  [⟨none, 1, { type := .NODE, name := "node.0", os_id := 0 }, some 11⟩,
   ⟨some 11, 2, { type := .SOCKET, name := "socket.0", os_id := 0 }, some 12⟩,
   ⟨none, 3, { type := .NODE, name := "node.1", os_id := 1 }, none⟩,
   ⟨some 12, 3, { type := .CORE, name := "core.0.0", os_id := 0 }, some 13⟩]

theorem hierarchy_inserts_documented_socket_with_core :
    (inserted socket_with_core).length = 4 ∧ EachStep Documented {} (inserted socket_with_core) :=
  ⟨by decide +kernel, (hierarchy_inserts_documented_iff _ (inserted_steps (by decide +kernel))).mpr
    (by unfold Insertion.KeepsRoot; decide +kernel)⟩

/-- Two nodes without a parent. -/
def two_nodes : List Insertion :=
  [⟨none, 1, { type := .NODE, name := "node.0", os_id := 0 }, some 11⟩,
   ⟨none, 2, { type := .NODE, name := "node.1", os_id := 1 }, some 12⟩]

/-- The second node takes the place of the first one. -/
theorem second_root_replaces_first :
    ¬∀ run : List ((Insertion × Int) × Hierarchy), EachStep InsertStep {} run → ∀ x ∈ run, x.2.OneTree := by
  intro hclaim
  have hall := hclaim (inserted two_nodes) (inserted_steps (by decide +kernel))
  have hfirst := (corresponds_root 1 11 { type := .NODE, name := "node.0", os_id := 0 }).not_oneTree
    (g := 12) (a := 2) (o := { type := .NODE, name := "node.1", os_id := 1 }) (by decide +kernel) (by decide +kernel)
    (by decide +kernel)
  exact hfirst (hall _ (List.mem_cons_of_mem _ List.mem_cons_self))

end Hierarchy

end pwrapi.x86
