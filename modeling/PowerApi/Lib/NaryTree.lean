import Mathlib.Logic.Relation
import PowerApi.Lib.HashTable

open HashTable

namespace NaryTree

/-- A node of a tree whose nodes are linked both ways, in a heap of nodes. -/
structure Node (ι α : Type) where
  data : α
  parent : Option ι := none
  children : List ι := []
  deriving DecidableEq, Repr

abbrev Heap (ι α : Type) := HashTable ι (Node ι α)

variable {ι α : Type} [DecidableEq ι]

/-- `p` is the parent of `i`. -/
def ParentOf (nodes : Heap ι α) (i p : ι) : Prop := (nodes.lookup i).bind Node.parent = some p

/-- The heap holds a single tree: every node but the root is once among the children of its
parent, and climbing from any node ends at the root. -/
structure IsTree (root : ι) (nodes : Heap ι α) : Prop where
  root_mem : root ∈ nodes
  root_parent : (nodes.lookup root).bind Node.parent = none
  listed : ∀ i p, ParentOf nodes i p → ∃ n, nodes.lookup p = some n ∧ i ∈ n.children
  child : ∀ p n, nodes.lookup p = some n → ∀ i ∈ n.children, ParentOf nodes i p
  nodup : ∀ p n, nodes.lookup p = some n → n.children.Nodup
  reaches : ∀ i ∈ nodes, Relation.ReflTransGen (ParentOf nodes) i root

/-- A new node becomes the last child of another one. -/
def append_leaf (nodes : Heap ι α) (p i : ι) (data : α) : Heap ι α :=
  match nodes.lookup p with
  | none => nodes
  | some n => (nodes.insert p { n with children := n.children ++ [i] }).insert i { data, parent := some p }

variable {nodes : Heap ι α} {root p i : ι} {n : Node ι α} {data : α}

theorem isTree_single (root : ι) (data : α) :
    IsTree root ((∅ : Heap ι α).insert root { data }) := by
  have hlookup : ∀ i, ((∅ : Heap ι α).insert root { data }).lookup i = if i = root then some { data } else none := by
    intro i
    rw [lookup_insert_eq_ite, Finmap.lookup_empty]
  have hparent : ∀ i p, ¬ParentOf ((∅ : Heap ι α).insert root { data }) i p := by
    intro i p h
    rw [ParentOf, hlookup] at h
    split at h <;> cases h
  refine ⟨?_, ?_, fun i p h => absurd h (hparent i p), ?_, ?_, ?_⟩
  · exact Finmap.mem_of_lookup_eq_some (by rw [hlookup, if_pos rfl])
  · rw [hlookup, if_pos rfl]
    rfl
  · intro p n hn i hi
    rw [hlookup] at hn
    split at hn
    · rw [← Option.some.inj hn] at hi
      cases hi
    · cases hn
  · intro p n hn
    rw [hlookup] at hn
    split at hn
    · rw [← Option.some.inj hn]
      exact List.nodup_nil
    · cases hn
  · intro i hi
    obtain ⟨n, hn⟩ := Finmap.mem_iff.mp hi
    rw [hlookup] at hn
    split at hn
    · next h =>
      subst h
      exact Relation.ReflTransGen.refl
    · cases hn

theorem lookup_append_leaf (hp : nodes.lookup p = some n) (j : ι) :
    (append_leaf nodes p i data).lookup j =
      if j = i then some { data, parent := some p }
      else if j = p then some { n with children := n.children ++ [i] } else nodes.lookup j := by
  simp only [append_leaf, hp, lookup_insert_eq_ite]

/-- The nodes that were there keep their data and their parents. -/
theorem append_leaf_keeps (hp : nodes.lookup p = some n) (hfree : nodes.lookup i = none) {j : ι} {m : Node ι α}
    (hj : nodes.lookup j = some m) :
    ∃ m', (append_leaf nodes p i data).lookup j = some m' ∧ m'.data = m.data ∧ m'.parent = m.parent := by
  have hne : j ≠ i := by
    rintro rfl
    rw [hfree] at hj
    cases hj
  rw [lookup_append_leaf hp, if_neg hne]
  split
  · next h =>
    subst h
    obtain rfl : n = m := Option.some.inj (hp.symm.trans hj)
    exact ⟨_, rfl, rfl, rfl⟩
  · exact ⟨m, hj, rfl, rfl⟩

theorem parentOf_append_leaf (hp : nodes.lookup p = some n) (hfree : nodes.lookup i = none) (j q : ι) :
    ParentOf (append_leaf nodes p i data) j q ↔ (j = i ∧ q = p) ∨ ParentOf nodes j q := by
  unfold ParentOf
  rw [lookup_append_leaf hp]
  by_cases hji : j = i
  · subst hji
    rw [if_pos rfl, hfree]
    simp [eq_comm]
  · rw [if_neg hji]
    by_cases hjp : j = p
    · subst hjp
      rw [if_pos rfl, hp]
      simp [hji]
    · rw [if_neg hjp]
      simp [hji]

theorem mem_append_leaf (hp : nodes.lookup p = some n) (j : ι) :
    j ∈ append_leaf nodes p i data ↔ j = i ∨ j ∈ nodes := by
  rw [append_leaf, hp]
  simp only [Finmap.mem_insert]
  constructor
  · rintro (rfl | rfl | hj)
    · exact Or.inl rfl
    · exact Or.inr (Finmap.mem_of_lookup_eq_some hp)
    · exact Or.inr hj
  · rintro (rfl | hj)
    · exact Or.inl rfl
    · exact Or.inr (Or.inr hj)

theorem ne_of_free {q : ι} {m : Node ι α} (hm : nodes.lookup q = some m) (hfree : nodes.lookup i = none) : q ≠ i := by
  rintro rfl
  rw [hfree] at hm
  cases hm

/-- A node that is not in the tree is no child of one that is. -/
theorem IsTree.not_listed_of_free (ht : IsTree root nodes) (hfree : nodes.lookup i = none)
    (hp : nodes.lookup p = some n) : i ∉ n.children := by
  intro hi
  have hlink := ht.child p n hp i hi
  rw [ParentOf, hfree] at hlink
  cases hlink

/-- A tree stays a tree when a new node is appended to one of its nodes. -/
theorem IsTree.append_leaf (ht : IsTree root nodes) (hp : nodes.lookup p = some n)
    (hfree : nodes.lookup i = none) : IsTree root (append_leaf nodes p i data) := by
  have hparent (j q : ι) : ParentOf (NaryTree.append_leaf nodes p i data) j q ↔
      (j = i ∧ q = p) ∨ ParentOf nodes j q :=
    parentOf_append_leaf hp hfree j q
  have hclimb : ∀ j, Relation.ReflTransGen (ParentOf nodes) j root →
      Relation.ReflTransGen (ParentOf (NaryTree.append_leaf nodes p i data)) j root :=
    fun j => Relation.ReflTransGen.mono (fun a b hab => (hparent a b).mpr (Or.inr hab)) j root
  refine ⟨?_, ?_, ?_, ?_, ?_, ?_⟩
  · exact (mem_append_leaf hp root).mpr (Or.inr ht.root_mem)
  · by_contra hsome
    obtain ⟨q, hq⟩ := Option.ne_none_iff_exists'.mp hsome
    rcases (hparent root q).mp hq with ⟨h, _⟩ | h
    · obtain ⟨m, hm⟩ := Finmap.mem_iff.mp ht.root_mem
      exact ne_of_free hm hfree h
    · rw [ParentOf, ht.root_parent] at h
      cases h
  · intro j q hjq
    rcases (hparent j q).mp hjq with ⟨rfl, rfl⟩ | hold
    · refine ⟨{ n with children := n.children ++ [j] }, ?_, by simp⟩
      rw [lookup_append_leaf hp, if_neg (ne_of_free hp hfree), if_pos rfl]
    · obtain ⟨m, hm, hj⟩ := ht.listed j q hold
      rw [lookup_append_leaf hp, if_neg (ne_of_free hm hfree)]
      split
      · next hq =>
        subst hq
        obtain rfl : n = m := Option.some.inj (hp.symm.trans hm)
        exact ⟨_, rfl, List.mem_append_left _ hj⟩
      · exact ⟨m, hm, hj⟩
  · intro q m hm j hj
    rw [hparent]
    rw [lookup_append_leaf hp] at hm
    split at hm
    · rw [← Option.some.inj hm] at hj
      cases hj
    · split at hm
      · next hq =>
        rw [← Option.some.inj hm] at hj
        rcases List.mem_append.mp hj with hold | hnew
        · exact Or.inr (hq ▸ ht.child p n hp j hold)
        · exact Or.inl ⟨List.mem_singleton.mp hnew, hq⟩
      · exact Or.inr (ht.child q m hm j hj)
  · intro q m hm
    rw [lookup_append_leaf hp] at hm
    split at hm
    · rw [← Option.some.inj hm]
      exact List.nodup_nil
    · split at hm
      · rw [← Option.some.inj hm]
        exact (ht.nodup p n hp).append (List.nodup_singleton i)
          (List.disjoint_singleton.mpr (ht.not_listed_of_free hfree hp))
      · exact ht.nodup q m hm
  · intro j hj
    rcases (mem_append_leaf hp j).mp hj with rfl | hold
    · have hlink : ParentOf (NaryTree.append_leaf nodes p j data) j p := (hparent j p).mpr (Or.inl ⟨rfl, rfl⟩)
      exact Relation.ReflTransGen.head hlink (hclimb p (ht.reaches p (Finmap.mem_of_lookup_eq_some hp)))
    · exact hclimb j (ht.reaches j hold)

end NaryTree
