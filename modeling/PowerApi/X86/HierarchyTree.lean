import Mathlib.Data.List.Basic
import PowerApi.Lib.CString
import PowerApi.Lib.Execution
import PowerApi.X86.Hierarchy

open Execution HashTable NaryTree

namespace pwrapi.x86

section Names

/-- The objects that are looked up by a generated name. -/
inductive ObjKey where
  | socket (socket_id : UInt64)
  | mem (socket_id : UInt64)
  | core (socket_id core_id : UInt64)
  | ht (ht_id : UInt64)
  deriving DecidableEq, Repr

def ObjKey.name : ObjKey → String
  | .socket socket_id => socket_name socket_id
  | .mem socket_id => mem_name socket_id
  | .core socket_id core_id => core_name socket_id core_id
  | .ht ht_id => ht_name ht_id

/-- The decimal digits that `%lu` prints. -/
def digits (n : UInt64) : List Char := Nat.toDigits 10 n.toNat

theorem toList_toString (n : UInt64) : (toString n).toList = digits n := Nat.toList_repr

theorem digits_injective {m n : UInt64} (h : digits m = digits n) : m = n :=
  UInt64.toNat_inj.mp (CString.toDigits_injective h)

theorem dot_notMem_digits (n : UInt64) : '.' ∉ digits n := by
  intro hmem
  have hdigit := Nat.isDigit_of_mem_toDigits (by decide) (by decide) hmem
  exact absurd hdigit (by decide)

/-- The letters before the first number. -/
def ObjKey.letters : ObjKey → List Char
  | .socket _ => ['s', 'o', 'c', 'k', 'e', 't']
  | .mem _ => ['m', 'e', 'm']
  | .core _ _ => ['c', 'o', 'r', 'e']
  | .ht _ => ['h', 't']

/-- The numbers of the name, with the dots between them. -/
def ObjKey.numbers : ObjKey → List Char
  | .socket socket_id | .mem socket_id => digits socket_id
  | .core socket_id core_id => digits socket_id ++ '.' :: digits core_id
  | .ht ht_id => digits ht_id

theorem ObjKey.toList_name (key : ObjKey) : key.name.toList = key.letters ++ '.' :: key.numbers := by
  cases key <;>
    simp [name, socket_name, mem_name, core_name, ht_name, letters, numbers, String.toList_append, toList_toString]

/-- Different objects have different names. -/
theorem ObjKey.name_injective {key key' : ObjKey} (h : key.name = key'.name) : key = key' := by
  have hlist : key.letters ++ '.' :: key.numbers = key'.letters ++ '.' :: key'.numbers := by
    rw [← toList_name, ← toList_name, h]
  cases key <;> cases key' <;> simp [letters] at hlist
  case socket.socket => exact congrArg _ (digits_injective hlist)
  case mem.mem => exact congrArg _ (digits_injective hlist)
  case ht.ht => exact congrArg _ (digits_injective hlist)
  case core.core s c s' c' =>
    have hsplit := (List.append_cons_inj_of_notMem (dot_notMem_digits s') (dot_notMem_digits c')).mp hlist.symm
    rw [digits_injective hsplit.1, digits_injective hsplit.2.2]

end Names

/-- The type and the numbers of the object that the name stands for. -/
def ObjKey.Numbered : ObjKey → HierObj → Prop
  | .socket socket_id, o => o.type = .SOCKET ∧ o.os_id = socket_id
  | .mem socket_id, o => o.type = .MEM ∧ o.os_id = socket_id
  | .core socket_id core_id, o => o.type = .CORE ∧ o.socket_id = socket_id ∧ o.os_id = core_id
  | .ht ht_id, o => o.type = .HT ∧ o.os_id = ht_id

/-- The object is the one that the name stands for. -/
structure ObjKey.Of (key : ObjKey) (o : HierObj) : Prop where
  name : o.name = key.name
  numbered : key.Numbered o

namespace Hierarchy

/-- The tree node of `o` is a child of the one of `p`. -/
def Under (h : Hierarchy) (o p : HierObj) : Prop :=
  ∃ g q n, o.gnode = some g ∧ ParentOf h.gnodes g q ∧ h.gnodes.lookup q = some n ∧
    h.objects.lookup n.data = some p

def UnderRoot (h : Hierarchy) (o : HierObj) : Prop :=
  ∃ g root, o.gnode = some g ∧ h.tree = some root ∧ ParentOf h.gnodes g root

/-- The nodes of the tree and the entries of the name map stand for the same objects. -/
structure Corresponds (h : Hierarchy) : Prop where
  tree : ∃ root, h.tree = some root ∧ IsTree root h.gnodes
  mapped : ∀ name a, h.map.lookup name = some a → ∃ o g n, h.objects.lookup a = some o ∧ o.name = name ∧
    o.gnode = some g ∧ h.gnodes.lookup g = some n ∧ n.data = a
  node : ∀ g n, h.gnodes.lookup g = some n → ∃ o, h.objects.lookup n.data = some o ∧ o.gnode = some g ∧
    h.map.lookup o.name = some n.data
  object : ∀ a o, h.objects.lookup a = some o → h.map.lookup o.name = some a

/-- The object has the name of what it stands for and its place in the tree. -/
inductive Placed (topology : Topology) (h : Hierarchy) (o : HierObj) : Prop where
  | ht (hkey : (ObjKey.ht o.os_id).Of o) (core : HierObj) (hunder : h.Under o core)
      (hcore : (ObjKey.core (topology.socket_of o.os_id) (topology.core_of o.os_id)).Of core)
  | core (hkey : (ObjKey.core o.socket_id o.os_id).Of o) (socket : HierObj) (hunder : h.Under o socket)
      (hsocket : (ObjKey.socket o.socket_id).Of socket)
  | mem (hkey : (ObjKey.mem o.os_id).Of o) (socket : HierObj) (hunder : h.Under o socket)
      (hsocket : (ObjKey.socket o.os_id).Of socket)
  | socket (hkey : (ObjKey.socket o.os_id).Of o) (hunder : h.UnderRoot o)
  | other (htype : o.type = .NODE ∨ o.type = .POWER_PLANE) (hname : ∀ key : ObjKey, o.name ≠ key.name)

structure Tidy (topology : Topology) (h : Hierarchy) : Prop extends Corresponds h where
  placed : ∀ a o, h.objects.lookup a = some o → h.Placed topology o

/-- What is new in a hierarchy comes from the given objects and has one of the given names. -/
structure Grows (news : List NewObj) (keys : List ObjKey) (h h' : Hierarchy) : Prop where
  tree : h'.tree = h.tree
  objects : ∀ a o, h.objects.lookup a = some o → h'.objects.lookup a = some o
  gnodes : ∀ g n, h.gnodes.lookup g = some n →
    ∃ n', h'.gnodes.lookup g = some n' ∧ n'.data = n.data ∧ n'.parent = n.parent
  new_objects : ∀ a, h.objects.lookup a = none → h'.objects.lookup a ≠ none →
    ∃ new ∈ news, new.object = some a ∧ new.gnode ≠ none
  new_gnodes : ∀ g, h.gnodes.lookup g = none → h'.gnodes.lookup g ≠ none → ∃ new ∈ news, new.gnode = some g
  new_names : ∀ name, h.map.lookup name = none → h'.map.lookup name ≠ none → ∃ key ∈ keys, name = key.name

variable {topology : Topology} {h h' h'' : Hierarchy} {news news' : List NewObj} {keys keys' : List ObjKey}

theorem Grows.refl (h : Hierarchy) : Grows [] [] h h where
  tree := rfl
  objects _ _ ho := ho
  gnodes _ n hn := ⟨n, hn, rfl, rfl⟩
  new_objects _ hnone hsome := absurd hnone hsome
  new_gnodes _ hnone hsome := absurd hnone hsome
  new_names _ hnone hsome := absurd hnone hsome

theorem Grows.mono (hg : Grows news keys h h') (hnews : news ⊆ news') (hkeys : keys ⊆ keys') :
    Grows news' keys' h h' where
  tree := hg.tree
  objects := hg.objects
  gnodes := hg.gnodes
  new_objects a hnone hsome := by
    obtain ⟨new, hmem, hnew⟩ := hg.new_objects a hnone hsome
    exact ⟨new, hnews hmem, hnew⟩
  new_gnodes g hnone hsome := by
    obtain ⟨new, hmem, hnew⟩ := hg.new_gnodes g hnone hsome
    exact ⟨new, hnews hmem, hnew⟩
  new_names name hnone hsome := by
    obtain ⟨key, hmem, hkey⟩ := hg.new_names name hnone hsome
    exact ⟨key, hkeys hmem, hkey⟩

theorem Grows.trans (hg : Grows news keys h h') (hg' : Grows news' keys' h' h'') :
    Grows (news ++ news') (keys ++ keys') h h'' where
  tree := hg'.tree.trans hg.tree
  objects a o ho := hg'.objects a o (hg.objects a o ho)
  gnodes g n hn := by
    obtain ⟨n', hn', hdata, hparent⟩ := hg.gnodes g n hn
    obtain ⟨n'', hn'', hdata', hparent'⟩ := hg'.gnodes g n' hn'
    exact ⟨n'', hn'', hdata'.trans hdata, hparent'.trans hparent⟩
  new_objects a hnone hsome := by
    by_cases hmid : h'.objects.lookup a = none
    · obtain ⟨new, hmem, hnew⟩ := hg'.new_objects a hmid hsome
      exact ⟨new, List.mem_append_right _ hmem, hnew⟩
    · obtain ⟨new, hmem, hnew⟩ := hg.new_objects a hnone hmid
      exact ⟨new, List.mem_append_left _ hmem, hnew⟩
  new_gnodes g hnone hsome := by
    by_cases hmid : h'.gnodes.lookup g = none
    · obtain ⟨new, hmem, hnew⟩ := hg'.new_gnodes g hmid hsome
      exact ⟨new, List.mem_append_right _ hmem, hnew⟩
    · obtain ⟨new, hmem, hnew⟩ := hg.new_gnodes g hnone hmid
      exact ⟨new, List.mem_append_left _ hmem, hnew⟩
  new_names name hnone hsome := by
    by_cases hmid : h'.map.lookup name = none
    · obtain ⟨key, hmem, hkey⟩ := hg'.new_names name hmid hsome
      exact ⟨key, List.mem_append_right _ hmem, hkey⟩
    · obtain ⟨key, hmem, hkey⟩ := hg.new_names name hnone hmid
      exact ⟨key, List.mem_append_left _ hmem, hkey⟩

/-- What is allocated later stays unused while the hierarchy grows by what came before. -/
theorem Fresh.later (news news' : List NewObj) (hfresh : Fresh h (news ++ news')) (hg : Grows news keys h h') :
    Fresh h' news' := by
  obtain ⟨hobjects, hgnodes, hdistinct⟩ := hfresh
  obtain ⟨_, hlater, hacross⟩ := List.pairwise_append.mp hdistinct
  refine ⟨fun later hmem a ha => ?_, fun later hmem g hg' => ?_, hlater⟩
  · by_contra hsome
    obtain ⟨new, hnew, hobject, hgnode⟩ :=
      hg.new_objects a (hobjects later (List.mem_append_right _ hmem) a ha) hsome
    exact (hacross new hnew later hmem).1 hgnode a hobject ha
  · by_contra hsome
    obtain ⟨new, hnew, hgnode⟩ := hg.new_gnodes g (hgnodes later (List.mem_append_right _ hmem) g hg') hsome
    exact (hacross new hnew later hmem).2 g hgnode hg'

theorem Fresh.earlier (news news' : List NewObj) (hfresh : Fresh h (news ++ news')) : Fresh h news :=
  ⟨fun new hmem => hfresh.objects new (List.mem_append_left _ hmem),
    fun new hmem => hfresh.gnodes new (List.mem_append_left _ hmem), (List.pairwise_append.mp hfresh.distinct).1⟩

theorem Grows.parentOf (hg : Grows news keys h h') {g q : Nat} (hparent : ParentOf h.gnodes g q) :
    ParentOf h'.gnodes g q := by
  obtain ⟨n, hn, hq⟩ := Option.bind_eq_some_iff.mp hparent
  obtain ⟨n', hn', _, hparent'⟩ := hg.gnodes g n hn
  exact Option.bind_eq_some_iff.mpr ⟨n', hn', hparent'.trans hq⟩

theorem Grows.under (hg : Grows news keys h h') {o p : HierObj} (hunder : h.Under o p) : h'.Under o p := by
  obtain ⟨g, q, n, ho, hparent, hn, hp⟩ := hunder
  obtain ⟨n', hn', hdata, _⟩ := hg.gnodes q n hn
  exact ⟨g, q, n', ho, hg.parentOf hparent, hn', by rw [hdata, hg.objects _ _ hp]⟩

theorem Grows.placed (hg : Grows news keys h h') {o : HierObj} (hplaced : h.Placed topology o) :
    h'.Placed topology o := by
  cases hplaced with
  | ht hkey core hunder hcore => exact .ht hkey core (hg.under hunder) hcore
  | core hkey socket hunder hsocket => exact .core hkey socket (hg.under hunder) hsocket
  | mem hkey socket hunder hsocket => exact .mem hkey socket (hg.under hunder) hsocket
  | socket hkey hunder =>
    obtain ⟨g, root, ho, hroot, hparent⟩ := hunder
    exact .socket hkey ⟨g, root, ho, hg.tree.trans hroot, hg.parentOf hparent⟩
  | other htype hname => exact .other htype hname

/-- A placed object with a generated name is the one that the name stands for. -/
theorem Placed.of_name {o : HierObj} (hplaced : h.Placed topology o) {key : ObjKey} (hname : o.name = key.name) :
    key.Of o := by
  have hof : ∃ own : ObjKey, own.Of o := by
    cases hplaced with
    | ht hkey _ _ _ => exact ⟨_, hkey⟩
    | core hkey _ _ _ => exact ⟨_, hkey⟩
    | mem hkey _ _ _ => exact ⟨_, hkey⟩
    | socket hkey _ => exact ⟨_, hkey⟩
    | other _ hother => exact absurd hname (hother key)
  obtain ⟨own, hown⟩ := hof
  obtain rfl : own = key := ObjKey.name_injective (hown.name.symm.trans hname)
  exact hown

/-- The object found under a generated name. -/
theorem Tidy.found (ht : h.Tidy topology) (key : ObjKey) {a : Nat} (ha : h.map.lookup key.name = some a) :
    ∃ o, h.objects.lookup a = some o ∧ key.Of o := by
  obtain ⟨o, g, n, ho, hname, _⟩ := ht.mapped _ _ ha
  exact ⟨o, ho, (ht.placed a o ho).of_name hname⟩

/-- The parent of an object is itself in the name map. -/
theorem Tidy.under_mapped (ht : h.Tidy topology) {o p : HierObj} (hunder : h.Under o p) :
    h.map.lookup p.name ≠ none := by
  obtain ⟨_, _, n, _, _, _, hp⟩ := hunder
  rw [ht.object _ _ hp]
  exact Option.some_ne_none _

/-- Without its socket there is no memory object. -/
theorem Tidy.mem_unmapped (ht : h.Tidy topology) {socket_id : UInt64}
    (hnone : h.map.lookup (socket_name socket_id) = none) : h.map.lookup (mem_name socket_id) = none := by
  by_contra hsome
  obtain ⟨a, ha⟩ := Option.ne_none_iff_exists'.mp hsome
  obtain ⟨o, ho, hof⟩ := ht.found (.mem socket_id) ha
  obtain ⟨htype, hid⟩ := hof.numbered
  cases ht.placed a o ho with
  | mem hkey socket hunder hsocket =>
    have hmapped := ht.under_mapped hunder
    rw [hsocket.name, hid] at hmapped
    exact hmapped hnone
  | ht hkey _ _ _ => cases htype.symm.trans hkey.numbered.1
  | core hkey _ _ _ => cases htype.symm.trans hkey.numbered.1
  | socket hkey _ => cases htype.symm.trans hkey.numbered.1
  | other hother _ =>
    rw [htype] at hother
    rcases hother with hother | hother <;> cases hother

section Insert

variable {o : HierObj} {new : NewObj} {key : ObjKey} {p a g : Nat} {n : Node Nat Nat}

/-- The hierarchy with a new object below the tree node `p`. -/
def attach (h : Hierarchy) (p a : Nat) (o : HierObj) (g : Nat) : Hierarchy :=
  { h with gnodes := append_leaf h.gnodes p g a, objects := h.objects.insert a { o with gnode := some g },
           map := h.map.insert o.name a }

theorem hierarchy_insert_attach (hfree : h.map.lookup o.name = none) :
    h.hierarchy_insert (some p) a o (some g) = (PWR_RET_SUCCESS, h.attach p a o g) := by
  simp only [hierarchy_insert, map_insert, hfree, attach]

theorem Corresponds.attach (hc : h.Corresponds) (hp : h.gnodes.lookup p = some n) (hg : h.gnodes.lookup g = none)
    (ha : h.objects.lookup a = none) (hfree : h.map.lookup o.name = none) : (h.attach p a o g).Corresponds := by
  have hlookup (j : Nat) : (append_leaf h.gnodes p g a).lookup j =
      if j = g then some { data := a, parent := some p }
      else if j = p then some { n with children := n.children ++ [g] } else h.gnodes.lookup j := lookup_append_leaf hp j
  refine ⟨?_, ?_, ?_, ?_⟩
  · obtain ⟨root, hroot, htree⟩ := hc.tree
    exact ⟨root, hroot, htree.append_leaf hp hg⟩
  · intro name b hb
    simp only [Hierarchy.attach, lookup_insert_eq_ite] at hb ⊢
    split at hb
    · next hname =>
      obtain rfl := Option.some.inj hb
      exact ⟨{ o with gnode := some g }, g, _, if_pos rfl, hname.symm, rfl, by rw [hlookup, if_pos rfl], rfl⟩
    · obtain ⟨o', g', n', ho', hname, hg', hn', hdata⟩ := hc.mapped name b hb
      have hne : b ≠ a := by
        rintro rfl
        rw [ha] at ho'
        cases ho'
      obtain ⟨n'', hn'', hdata', _⟩ : ∃ n'', (append_leaf h.gnodes p g a).lookup g' = some n'' ∧
        n''.data = n'.data ∧ n''.parent = n'.parent := append_leaf_keeps hp hg hn'
      exact ⟨o', g', n'', by rw [if_neg hne, ho'], hname, hg', hn'', hdata'.trans hdata⟩
  · intro g' n' hn'
    simp only [Hierarchy.attach, lookup_insert_eq_ite] at hn' ⊢
    rw [hlookup] at hn'
    by_cases hgg : g' = g
    · rw [if_pos hgg] at hn'
      obtain rfl := Option.some.inj hn'
      exact ⟨{ o with gnode := some g }, if_pos rfl, by rw [hgg], if_pos rfl⟩
    · rw [if_neg hgg] at hn'
      have hold : ∃ m, h.gnodes.lookup g' = some m ∧ m.data = n'.data := by
        split at hn'
        · next hgp =>
          subst hgp
          obtain rfl := Option.some.inj hn'
          exact ⟨n, hp, rfl⟩
        · exact ⟨n', hn', rfl⟩
      obtain ⟨m, hm, hdata⟩ := hold
      obtain ⟨o', ho', hg', hmap⟩ := hc.node g' m hm
      rw [hdata] at ho' hmap
      have hne : n'.data ≠ a := by
        rintro heq
        rw [heq, ha] at ho'
        cases ho'
      have hname : o'.name ≠ o.name := by
        intro heq
        rw [heq, hfree] at hmap
        cases hmap
      exact ⟨o', by rw [if_neg hne, ho'], hg', by rw [if_neg hname, hmap]⟩
  · intro b o' ho'
    simp only [Hierarchy.attach, lookup_insert_eq_ite] at ho' ⊢
    split at ho'
    · next hb =>
      obtain rfl := Option.some.inj ho'
      rw [if_pos rfl, hb]
    · have hmap := hc.object b o' ho'
      have hname : o'.name ≠ o.name := by
        intro heq
        rw [heq, hfree] at hmap
        cases hmap
      rw [if_neg hname, hmap]

theorem grows_attach (hp : h.gnodes.lookup p = some n) (hg : h.gnodes.lookup g = none)
    (ha : h.objects.lookup a = none) (hname : o.name = key.name) (hobject : new.object = some a)
    (hgnode : new.gnode = some g) : Grows [new] [key] h (h.attach p a o g) where
  tree := rfl
  objects b o' ho' := by
    have hne : b ≠ a := by
      rintro rfl
      rw [ha] at ho'
      cases ho'
    rw [attach, lookup_insert_eq_ite, if_neg hne, ho']
  gnodes g' n' hn' := append_leaf_keeps hp hg hn'
  new_objects b hnone hsome := by
    rw [attach, lookup_insert_eq_ite] at hsome
    split at hsome
    · next hb => exact ⟨new, List.mem_singleton_self new, by rw [hobject, hb], by simp [hgnode]⟩
    · exact absurd hnone hsome
  new_gnodes g' hnone hsome := by
    rw [attach, lookup_append_leaf hp] at hsome
    split at hsome
    · next hg' => exact ⟨new, List.mem_singleton_self new, by rw [hgnode, hg']⟩
    · split at hsome
      · next hgp =>
        rw [hgp, hp] at hnone
        cases hnone
      · exact absurd hnone hsome
  new_names name hnone hsome := by
    rw [attach, lookup_insert_eq_ite] at hsome
    split at hsome
    · next hk => exact ⟨key, List.mem_singleton_self key, hk.trans hname⟩
    · exact absurd hnone hsome

/-- An object that is new, under the tree node of its place. -/
theorem Tidy.hierarchy_insert (ht : h.Tidy topology) (key : ObjKey) (hfresh : Fresh h [new])
    (hobject : new.object = some a)
    (hname : o.name = key.name) (hfree : h.map.lookup key.name = none) (hp : h.gnodes.lookup p = some n)
    (hplaced : ∀ h' g, Grows [new] [key] h h' → ParentOf h'.gnodes g p →
      h'.Placed topology { o with gnode := some g }) :
    let r := h.hierarchy_insert (some p) a o new.gnode
    r.2.Tidy topology ∧ Grows [new] [key] h r.2 ∧
      (r.1 = PWR_RET_SUCCESS → r.2.objects.lookup a = some { o with gnode := new.gnode }) := by
  have ha := hfresh.objects new (List.mem_singleton_self new) a hobject
  cases hgnode : new.gnode with
  | none =>
    refine ⟨ht, (Grows.refl h).mono (List.nil_subset _) (List.nil_subset _), fun hstatus => ?_⟩
    exact absurd (show PWR_RET_FAILURE = PWR_RET_SUCCESS from hstatus) (by decide)
  | some g =>
    have hg := hfresh.gnodes new (List.mem_singleton_self new) g hgnode
    rw [← hname] at hfree
    rw [hierarchy_insert_attach hfree]
    have hgrows := grows_attach hp hg ha hname hobject hgnode
    refine ⟨⟨ht.toCorresponds.attach hp hg ha hfree, ?_⟩, hgrows, fun _ => ?_⟩
    · intro b o' ho'
      simp only [attach, lookup_insert_eq_ite] at ho'
      split at ho'
      · obtain rfl := Option.some.inj ho'
        exact hplaced _ g hgrows ((parentOf_append_leaf hp hg g p).mpr (Or.inl ⟨rfl, rfl⟩))
      · exact hgrows.placed (ht.placed b o' ho')
    · rw [attach, Finmap.lookup_insert]

end Insert

section Find

variable {call : HtCall} {socket_id core_id : UInt64}

/-- Every object has its tree node. -/
theorem Corresponds.node_of (hc : h.Corresponds) {a : Nat} {o : HierObj} (ho : h.objects.lookup a = some o) :
    ∃ g n, h.gnode_of a = some g ∧ o.gnode = some g ∧ h.gnodes.lookup g = some n ∧ n.data = a := by
  obtain ⟨o', g, n, ho', _, hg, hn, hdata⟩ := hc.mapped _ _ (hc.object a o ho)
  obtain rfl : o = o' := Option.some.inj (ho.symm.trans ho')
  exact ⟨g, n, by rw [gnode_of, ho, Option.bind_some, hg], hg, hn, hdata⟩

/-- An object that is new, under the tree node of an object. -/
theorem Tidy.insert_under (ht : h.Tidy topology) {new : NewObj} (key : ObjKey) {parent a : Nat} {o above : HierObj}
    (habove : h.objects.lookup parent = some above) (hfresh : Fresh h [new]) (hobject : new.object = some a)
    (hname : o.name = key.name) (hfree : h.map.lookup key.name = none)
    (hplaced : ∀ (h' : Hierarchy) (g : Nat), h'.Under { o with gnode := some g } above →
      h'.Placed topology { o with gnode := some g }) :
    let r := h.hierarchy_insert (h.gnode_of parent) a o new.gnode
    r.2.Tidy topology ∧ Grows [new] [key] h r.2 ∧
      (r.1 = PWR_RET_SUCCESS → r.2.objects.lookup a = some { o with gnode := new.gnode }) := by
  obtain ⟨p, n, hgnode, _, hn, hdata⟩ := ht.node_of habove
  rw [hgnode]
  refine ht.hierarchy_insert key hfresh hobject hname hfree hn fun h' g hgrows hparent => hplaced h' g ?_
  obtain ⟨n', hn', hdata', _⟩ := hgrows.gnodes p n hn
  exact ⟨g, p, n', rfl, hparent, hn', by rw [hdata', hdata, hgrows.objects _ _ habove]⟩

/-- A name that was free and is not among those that were added is still free. -/
theorem Grows.unmapped (hg : Grows news keys h h') (key : ObjKey) (hfree : h.map.lookup key.name = none)
    (hkey : key ∉ keys) : h'.map.lookup key.name = none := by
  by_contra hsome
  obtain ⟨other, hmem, hname⟩ := hg.new_names key.name hfree hsome
  exact hkey (ObjKey.name_injective hname ▸ hmem)

/-- What a search for an object does: the hierarchy stays in order, grows by the given
objects only, and leads to the object if one is found. -/
structure Finds (topology : Topology) (news : List NewObj) (keys : List ObjKey) (key : ObjKey) (h : Hierarchy)
    (found : Option Nat × Hierarchy) : Prop where
  tidy : found.2.Tidy topology
  grows : Grows news keys h found.2
  found : ∀ a, found.1 = some a → ∃ o, found.2.objects.lookup a = some o ∧ key.Of o

theorem Finds.of_same {key : ObjKey} {result : Option Nat} (ht : h.Tidy topology)
    (hfound : ∀ a, result = some a → ∃ o, h.objects.lookup a = some o ∧ key.Of o) :
    Finds topology news keys key h (result, h) :=
  ⟨ht, (Grows.refl h).mono (List.nil_subset _) (List.nil_subset _), hfound⟩

theorem Finds.none {key : ObjKey} (ht : h.Tidy topology) : Finds topology news keys key h (none, h) :=
  .of_same ht fun _ hresult => by cases hresult

theorem x86_find_socket_finds (socket_id : UInt64) (ht : h.Tidy topology) (hfresh : Fresh h [call.socket, call.mem]) :
    Finds topology [call.socket, call.mem] [.socket socket_id, .mem socket_id] (.socket socket_id) h
      (h.x86_find_socket call socket_id) := by
  unfold x86_find_socket
  cases hlookup : h.map.lookup (socket_name socket_id) with
  | some found =>
    refine .of_same ht fun a hresult => ?_
    obtain rfl := Option.some.inj hresult
    exact ht.found (.socket socket_id) hlookup
  | none =>
    dsimp only
    split
    · next socket mem rapl_pkg_id rapl_mem_id hsocket hmem _ =>
      obtain ⟨root, hroot, htree⟩ := ht.tree
      obtain ⟨n, hn⟩ := Finmap.mem_iff.mp htree.root_mem
      have hinsert := ht.hierarchy_insert (.socket socket_id) (.earlier [call.socket] [call.mem] hfresh) hsocket
        (o := { type := .SOCKET, name := socket_name socket_id, os_id := socket_id, ht_id := call.ht_id, rapl_pkg_id })
        rfl hlookup hn fun h' g hgrows hparent =>
          .socket ⟨rfl, rfl, rfl⟩ ⟨g, root, rfl, hgrows.tree.trans hroot, hparent⟩
      rw [← hroot] at hinsert
      obtain ⟨htidy, hgrows, hfound⟩ := hinsert
      split
      · exact ⟨htidy, hgrows.mono (by simp) (by simp), fun _ hresult => by cases hresult⟩
      · next hstatus =>
        have hobject := hfound (not_not.mp hstatus)
        have hfree := hgrows.unmapped (.mem socket_id) (ht.mem_unmapped hlookup) (by simp)
        obtain ⟨htidy', hgrows', _⟩ :=
          htidy.insert_under (.mem socket_id) hobject (.later [call.socket] [call.mem] hfresh hgrows) hmem
          (o := { type := .MEM, name := mem_name socket_id, os_id := socket_id, ht_id := call.ht_id, rapl_pkg_id,
                  rapl_mem_id })
          rfl hfree fun h' g hunder => .mem ⟨rfl, rfl, rfl⟩ _ hunder ⟨rfl, rfl, rfl⟩
        refine ⟨htidy', hgrows.trans hgrows', fun a hresult => ?_⟩
        obtain rfl := Option.some.inj hresult
        exact ⟨_, hgrows'.objects _ _ hobject, rfl, rfl, rfl⟩
    · exact .none ht

theorem x86_find_core_finds (core_id socket_id : UInt64) (ht : h.Tidy topology)
    (hfresh : Fresh h [call.socket, call.mem, call.core]) :
    Finds topology [call.socket, call.mem, call.core]
      [.socket socket_id, .mem socket_id, .core socket_id core_id] (.core socket_id core_id) h
      (h.x86_find_core call core_id socket_id) := by
  unfold x86_find_core
  cases hlookup : h.map.lookup (core_name socket_id core_id) with
  | some found =>
    refine .of_same ht fun a hresult => ?_
    obtain rfl := Option.some.inj hresult
    exact ht.found (.core socket_id core_id) hlookup
  | none =>
    have hfinds := x86_find_socket_finds socket_id ht
      (.earlier [call.socket, call.mem] [call.core] hfresh)
    dsimp only
    generalize h.x86_find_socket call socket_id = found at hfinds
    obtain ⟨htidy, hgrows, hfound⟩ := hfinds
    have hmono : Grows [call.socket, call.mem, call.core]
        [.socket socket_id, .mem socket_id, .core socket_id core_id] h found.2 :=
      hgrows.mono (by simp) (by simp)
    split
    · exact ⟨htidy, hmono, fun _ hresult => by cases hresult⟩
    · next socket h₁ =>
      obtain ⟨above, habove, hsocket⟩ := hfound socket rfl
      split
      · exact ⟨htidy, hmono, fun _ hresult => by cases hresult⟩
      · next core hcore =>
        have hfree := hgrows.unmapped (.core socket_id core_id) hlookup (by simp)
        obtain ⟨htidy', hgrows', hobject⟩ := htidy.insert_under (.core socket_id core_id) habove
          (.later [call.socket, call.mem] [call.core] hfresh hgrows) hcore
          (o := { type := .CORE, name := core_name socket_id core_id, os_id := core_id, socket_id })
          rfl hfree fun h' g hunder => .core ⟨rfl, rfl, rfl, rfl⟩ _ hunder hsocket
        split
        · exact ⟨htidy', hgrows.trans hgrows', fun _ hresult => by cases hresult⟩
        · next hstatus =>
          refine ⟨htidy', hgrows.trans hgrows', fun a hresult => ?_⟩
          obtain rfl := Option.some.inj hresult
          exact ⟨_, hobject (not_not.mp hstatus), rfl, rfl, rfl, rfl⟩

theorem x86_find_ht_finds (ht : h.Tidy topology) (hfresh : Fresh h call.news)
    (hnew : h.map.lookup (ht_name call.ht_id) = none) :
    let socket_id := topology.socket_of call.ht_id
    Finds topology call.news
      [.socket socket_id, .mem socket_id, .core socket_id (topology.core_of call.ht_id), .ht call.ht_id]
      (.ht call.ht_id) h (h.x86_find_ht topology call) := by
  intro socket_id
  unfold x86_find_ht
  have hfinds := x86_find_core_finds (topology.core_of call.ht_id) socket_id ht
    (.earlier [call.socket, call.mem, call.core] [call.ht] hfresh)
  generalize h.x86_find_core call (topology.core_of call.ht_id) (topology.socket_of call.ht_id) = found at hfinds
  obtain ⟨htidy, hgrows, hfound⟩ := hfinds
  have hmono : Grows call.news
      [.socket socket_id, .mem socket_id, .core socket_id (topology.core_of call.ht_id), .ht call.ht_id] h found.2 :=
    hgrows.mono (by simp [HtCall.news]) (by simp)
  split
  · exact ⟨htidy, hmono, fun _ hresult => by cases hresult⟩
  · next core h₁ =>
    obtain ⟨above, habove, hcore⟩ := hfound core rfl
    dsimp only
    split
    · exact ⟨htidy, hmono, fun _ hresult => by cases hresult⟩
    · next ht_obj hobject =>
      have hfree := hgrows.unmapped (.ht call.ht_id) hnew (by simp)
      obtain ⟨htidy', hgrows', hobject'⟩ := htidy.insert_under (.ht call.ht_id) habove
        (.later [call.socket, call.mem, call.core] [call.ht] hfresh hgrows) hobject
        (o := { type := .HT, name := ht_name call.ht_id, os_id := call.ht_id })
        rfl hfree fun h' g hunder => .ht ⟨rfl, rfl, rfl⟩ _ hunder hcore
      split
      · exact ⟨htidy', hgrows.trans hgrows', fun _ hresult => by cases hresult⟩
      · next hstatus =>
        refine ⟨htidy', hgrows.trans hgrows', fun a hresult => ?_⟩
        obtain rfl := Option.some.inj hresult
        exact ⟨_, hobject' (not_not.mp hstatus), rfl, rfl, rfl⟩

end Find

section Runs

/-- There is one object for each socket number and one for each pair of a socket and a core number. -/
structure OneEach (h : Hierarchy) : Prop where
  sockets : ∀ a b o p, h.objects.lookup a = some o → h.objects.lookup b = some p →
    o.type = .SOCKET → p.type = .SOCKET → o.os_id = p.os_id → a = b
  cores : ∀ a b o p, h.objects.lookup a = some o → h.objects.lookup b = some p →
    o.type = .CORE → p.type = .CORE → o.socket_id = p.socket_id → o.os_id = p.os_id → a = b

/-- A hierarchy that holds its root and power planes and nothing else. -/
structure RootInPlace (h : Hierarchy) : Prop extends Corresponds h where
  others : ∀ a o, h.objects.lookup a = some o →
    (o.type = .NODE ∨ o.type = .POWER_PLANE) ∧ ∀ key : ObjKey, o.name ≠ key.name

theorem RootInPlace.tidy (hroot : h.RootInPlace) : h.Tidy topology where
  toCorresponds := hroot.toCorresponds
  placed a o ho := .other (hroot.others a o ho).1 (hroot.others a o ho).2

theorem RootInPlace.unmapped (hroot : h.RootInPlace) (key : ObjKey) : h.map.lookup key.name = none := by
  by_contra hsome
  obtain ⟨a, ha⟩ := Option.ne_none_iff_exists'.mp hsome
  obtain ⟨o, _, _, ho, hname, _⟩ := hroot.mapped _ _ ha
  exact (hroot.others a o ho).2 key hname

/-- Objects of one name are one object. -/
theorem Corresponds.name_unique (hc : h.Corresponds) {a b : Nat} {o p : HierObj} (ho : h.objects.lookup a = some o)
    (hp : h.objects.lookup b = some p) (hname : o.name = p.name) : a = b := by
  have hb := hc.object b p hp
  rw [← hname, hc.object a o ho] at hb
  exact Option.some.inj hb

theorem Placed.socket_name {o : HierObj} (hplaced : h.Placed topology o) (htype : o.type = .SOCKET) :
    o.name = socket_name o.os_id := by
  cases hplaced with
  | socket hkey _ => exact hkey.name
  | ht hkey _ _ _ => cases htype.symm.trans hkey.numbered.1
  | core hkey _ _ _ => cases htype.symm.trans hkey.numbered.1
  | mem hkey _ _ _ => cases htype.symm.trans hkey.numbered.1
  | other hother _ =>
    rw [htype] at hother
    rcases hother with hother | hother <;> cases hother

theorem Placed.core_under {o : HierObj} (hplaced : h.Placed topology o) (htype : o.type = .CORE) :
    (ObjKey.core o.socket_id o.os_id).Of o ∧ ∃ socket, h.Under o socket ∧ (ObjKey.socket o.socket_id).Of socket := by
  cases hplaced with
  | core hkey socket hunder hsocket => exact ⟨hkey, socket, hunder, hsocket⟩
  | ht hkey _ _ _ => cases htype.symm.trans hkey.numbered.1
  | mem hkey _ _ _ => cases htype.symm.trans hkey.numbered.1
  | socket hkey _ => cases htype.symm.trans hkey.numbered.1
  | other hother _ =>
    rw [htype] at hother
    rcases hother with hother | hother <;> cases hother

theorem Tidy.oneEach (ht : h.Tidy topology) : h.OneEach where
  sockets a b o p ho hp htype htype' hid := by
    refine ht.name_unique ho hp ?_
    rw [(ht.placed a o ho).socket_name htype, (ht.placed b p hp).socket_name htype', hid]
  cores a b o p ho hp htype htype' hsocket hid := by
    refine ht.name_unique ho hp ?_
    rw [((ht.placed a o ho).core_under htype).1.name, ((ht.placed b p hp).core_under htype').1.name, hsocket, hid]

/-- A call of `x86_find_ht`, with the hardware thread it finds. -/
def HtStep (topology : Topology) (h : Hierarchy) (step : HtCall × Option Nat) (h' : Hierarchy) : Prop :=
  Fresh h step.1.news ∧ h.x86_find_ht topology step.1 = (step.2, h')

theorem tidy_run {run : List ((HtCall × Option Nat) × Hierarchy)} (ht : h.Tidy topology)
    (hrun : EachStep (HtStep topology) h run) (hdistinct : (run.map fun x => x.1.1.ht_id).Nodup)
    (hnew : ∀ x ∈ run, h.map.lookup (ht_name x.1.1.ht_id) = none) :
    ∀ x ∈ run, x.2.Tidy topology ∧ ∀ a, x.1.2 = some a →
      ∃ o, x.2.objects.lookup a = some o ∧ (ObjKey.ht x.1.1.ht_id).Of o := by
  induction run generalizing h with
  | nil => simp
  | cons x rest ih =>
    obtain ⟨⟨call, result⟩, h'⟩ := x
    obtain ⟨⟨hfresh, hfind⟩, hrest⟩ := hrun
    rw [List.map_cons, List.nodup_cons] at hdistinct
    have hcall : h.map.lookup (ht_name call.ht_id) = none := hnew ((call, result), h') List.mem_cons_self
    have hfinds := x86_find_ht_finds ht hfresh hcall
    rw [hfind] at hfinds
    intro y hy
    rcases List.mem_cons.mp hy with rfl | hmem
    · exact ⟨hfinds.tidy, hfinds.found⟩
    · refine ih hfinds.tidy hrest hdistinct.2 (fun z hz => ?_) y hmem
      refine hfinds.grows.unmapped (.ht z.1.1.ht_id) (hnew z (List.mem_cons_of_mem _ hz)) ?_
      have hne : z.1.1.ht_id ≠ call.ht_id := by
        intro heq
        exact hdistinct.1 (heq ▸ List.mem_map_of_mem hz)
      simpa using hne

/-- In every run of `x86_find_ht` with distinct CPU numbers from a hierarchy whose root is
in place, whatever the topology files give and whatever fails, the tree and the name map
stand for the same objects, each of them under its place, and no socket or core is there
twice; and a hardware thread that is found is the one that was asked for. -/
theorem hierarchy_tidy {h₀ : Hierarchy} (hroot : h₀.RootInPlace) (run : List ((HtCall × Option Nat) × Hierarchy))
    (hrun : EachStep (HtStep topology) h₀ run) (hdistinct : (run.map fun x => x.1.1.ht_id).Nodup) :
    ∀ x ∈ run, x.2.Tidy topology ∧ x.2.OneEach ∧ ∀ a, x.1.2 = some a →
      ∃ o, x.2.objects.lookup a = some o ∧ (ObjKey.ht x.1.1.ht_id).Of o := by
  intro x hx
  have hall := tidy_run hroot.tidy hrun hdistinct (fun x _ => hroot.unmapped (.ht x.1.1.ht_id)) x hx
  exact ⟨hall.1, hall.1.oneEach, hall.2⟩

end Runs

section Root

/-- The generated names begin with other letters than those of nodes and power planes. -/
theorem ne_name_of_head {name : String} {c : Char} (hhead : name.toList.head? = some c)
    (hc : c ∉ ['s', 'm', 'c', 'h']) (key : ObjKey) : name ≠ key.name := by
  rintro rfl
  rw [ObjKey.toList_name] at hhead
  cases key <;> simp [ObjKey.letters] at hhead <;> simp [← hhead] at hc

/-- The first object is the tree and the name map of its own. -/
theorem corresponds_root (a g : Nat) (o : HierObj) :
    (({} : Hierarchy).hierarchy_insert none a o (some g)).2.Corresponds := by
  have hobjects (b : Nat) (o' : HierObj) :
      ((∅ : HashTable Nat HierObj).insert a { o with gnode := some g }).lookup b = some o' ↔
        b = a ∧ { o with gnode := some g } = o' := by
    rw [lookup_insert_eq_ite, Finmap.lookup_empty]
    simp
  have hgnodes (g' : Nat) (n : Node Nat Nat) :
      ((∅ : Heap Nat Nat).insert g { data := a }).lookup g' = some n ↔ g' = g ∧ { data := a } = n := by
    rw [lookup_insert_eq_ite, Finmap.lookup_empty]
    simp
  have hmap (name : String) (b : Nat) :
      ((∅ : HashTable String Nat).insert o.name a).lookup name = some b ↔ name = o.name ∧ a = b := by
    rw [lookup_insert_eq_ite, Finmap.lookup_empty]
    simp
  refine ⟨⟨g, rfl, isTree_single g a⟩, ?_, ?_, ?_⟩
  · intro name b hb
    obtain ⟨rfl, rfl⟩ := (hmap name b).mp hb
    exact ⟨_, g, _, (hobjects a _).mpr ⟨rfl, rfl⟩, rfl, rfl, (hgnodes g _).mpr ⟨rfl, rfl⟩, rfl⟩
  · intro g' n hn
    obtain ⟨rfl, rfl⟩ := (hgnodes g' n).mp hn
    exact ⟨_, (hobjects a _).mpr ⟨rfl, rfl⟩, rfl, (hmap _ _).mpr ⟨rfl, rfl⟩⟩
  · intro b o' ho'
    obtain ⟨rfl, rfl⟩ := (hobjects b o').mp ho'
    exact (hmap _ _).mpr ⟨rfl, rfl⟩

theorem rootInPlace_node {a g : Nat} {o : HierObj} (htype : o.type = .NODE)
    (hname : ∀ key : ObjKey, o.name ≠ key.name) :
    (({} : Hierarchy).hierarchy_insert none a o (some g)).2.RootInPlace := by
  refine ⟨corresponds_root a g o, fun b o' ho' => ?_⟩
  have hlookup : ((∅ : HashTable Nat HierObj).insert a { o with gnode := some g }).lookup b = some o' := ho'
  rw [lookup_insert_eq_ite, Finmap.lookup_empty] at hlookup
  split at hlookup
  · obtain rfl := Option.some.inj hlookup
    exact ⟨Or.inl htype, hname⟩
  · cases hlookup

theorem RootInPlace.attach (hroot : h.RootInPlace) {p a g : Nat} {o : HierObj} (hp : h.tree = some p)
    (hg : h.gnodes.lookup g = none) (ha : h.objects.lookup a = none) (hfree : h.map.lookup o.name = none)
    (htype : o.type = .POWER_PLANE) (hname : ∀ key : ObjKey, o.name ≠ key.name) : (h.attach p a o g).RootInPlace := by
  obtain ⟨root, hroot', htree⟩ := hroot.tree
  obtain rfl : p = root := Option.some.inj (hp.symm.trans hroot')
  obtain ⟨n, hn⟩ := Finmap.mem_iff.mp htree.root_mem
  refine ⟨hroot.toCorresponds.attach hn hg ha hfree, fun b o' ho' => ?_⟩
  simp only [Hierarchy.attach, lookup_insert_eq_ite] at ho'
  split at ho'
  · obtain rfl := Option.some.inj ho'
    exact ⟨Or.inr htype, hname⟩
  · exact hroot.others b o' ho'

theorem x86_insert_pplane_eq {letters : String} {os_id : UInt64} {p : Nat} {new : NewObj}
    (hfree : h.map.lookup (pplane_obj letters os_id).name = none)
    (hstatus : (h.x86_insert_pplane letters os_id (some p) new).1 = PWR_RET_SUCCESS) :
    ∃ a g, new.object = some a ∧ new.gnode = some g ∧
      (h.x86_insert_pplane letters os_id (some p) new).2 = h.attach p a (pplane_obj letters os_id) g := by
  unfold x86_insert_pplane at hstatus ⊢
  cases ha : new.object with
  | none =>
    rw [ha] at hstatus
    exact absurd (show PWR_RET_FAILURE = PWR_RET_SUCCESS from hstatus) (by decide)
  | some a =>
    cases hg : new.gnode with
    | none =>
      simp only [ha, hg] at hstatus
      exact absurd (show PWR_RET_FAILURE = PWR_RET_SUCCESS from hstatus) (by decide)
    | some g => exact ⟨a, g, rfl, rfl, congrArg Prod.snd (hierarchy_insert_attach hfree)⟩

/-- The root node in an empty hierarchy. -/
def with_node (a g : Nat) : Hierarchy := (({} : Hierarchy).hierarchy_insert none a node_obj (some g)).2

theorem with_node_objects {a g b : Nat} (hne : b ≠ a) : (with_node a g).objects.lookup b = none := by
  show ((∅ : HashTable Nat HierObj).insert a _).lookup b = none
  rw [lookup_insert_eq_ite, if_neg hne, Finmap.lookup_empty]

theorem with_node_gnodes (a g g' : Nat) :
    (with_node a g).gnodes.lookup g' = if g' = g then some { data := a } else none := by
  show ((∅ : Heap Nat Nat).insert g _).lookup g' = _
  rw [lookup_insert_eq_ite, Finmap.lookup_empty]

theorem with_node_map {a g : Nat} {name : String} (hne : name ≠ node_obj.name) :
    (with_node a g).map.lookup name = none := by
  show ((∅ : HashTable String Nat).insert _ a).lookup name = none
  rw [lookup_insert_eq_ite, if_neg hne, Finmap.lookup_empty]

theorem with_node_gnode_of (a g : Nat) : (with_node a g).gnode_of a = some g := by
  show (((∅ : HashTable Nat HierObj).insert a _).lookup a).bind _ = some g
  rw [Finmap.lookup_insert]
  rfl

theorem x86_insert_node_eq {node : NewObj} {a g : Nat} (ha : node.object = some a) (hg : node.gnode = some g)
    (cpu mem : NewObj) : ({} : Hierarchy).x86_insert_node node cpu mem =
      if ((with_node a g).x86_insert_pplane "pm_counters.cpu." 0 (some g) cpu).1 ≠ 0 then
        (with_node a g).x86_insert_pplane "pm_counters.cpu." 0 (some g) cpu
      else ((with_node a g).x86_insert_pplane "pm_counters.cpu." 0 (some g) cpu).2.x86_insert_pplane
        "pm_counters.mem." 1 (some g) mem := by
  have hnode : ({} : Hierarchy).hierarchy_insert none a node_obj (some g) = (PWR_RET_SUCCESS, with_node a g) := rfl
  simp only [x86_insert_node, ha, hg, hnode, with_node_gnode_of]
  rw [if_neg (by decide)]

/-- The node and the power planes are a root in its place. -/
theorem x86_insert_node_rootInPlace {node cpu mem : NewObj} (hfresh : Fresh {} [node, cpu, mem])
    (hstatus : (({} : Hierarchy).x86_insert_node node cpu mem).1 = PWR_RET_SUCCESS) :
    (({} : Hierarchy).x86_insert_node node cpu mem).2.RootInPlace := by
  cases ha : node.object with
  | none =>
    simp only [x86_insert_node, ha] at hstatus
    exact absurd (show PWR_RET_FAILURE = PWR_RET_SUCCESS from hstatus) (by decide)
  | some a =>
    cases hg : node.gnode with
    | none =>
      simp only [x86_insert_node, ha, hg] at hstatus
      exact absurd (show PWR_RET_FAILURE = PWR_RET_SUCCESS from hstatus) (by decide)
    | some g =>
      have hnode : (with_node a g).RootInPlace :=
        rootInPlace_node rfl (ne_name_of_head (c := 'n') (by simp [node_obj, String.toList_append]) (by decide))
      rw [x86_insert_node_eq ha hg] at hstatus ⊢
      split at hstatus
      · next hcpu => exact absurd hstatus hcpu
      · next hcpu =>
        rw [if_neg hcpu]
        obtain ⟨hfirst, hrest⟩ := List.pairwise_cons.mp hfresh.distinct
        have hnode_cpu := hfirst cpu (by simp)
        have hnode_mem := hfirst mem (by simp)
        have hcpu_mem := (List.pairwise_cons.mp hrest).1 mem (by simp)
        rw [hg] at hnode_cpu hnode_mem
        obtain ⟨ac, gc, hac, hgc, hattach⟩ := x86_insert_pplane_eq (with_node_map (by decide)) (not_not.mp hcpu)
        have hac_node : ac ≠ a := fun heq => hnode_cpu.1 (Option.some_ne_none g) a ha (heq ▸ hac)
        have hgc_node : gc ≠ g := fun heq => hnode_cpu.2 g rfl (heq ▸ hgc)
        have hroot := hnode.attach (o := pplane_obj "pm_counters.cpu." 0) rfl
          (by rw [with_node_gnodes, if_neg hgc_node]) (with_node_objects hac_node) (with_node_map (by decide)) rfl
          (ne_name_of_head (c := 'p') (by simp [pplane_obj, String.toList_append]) (by decide))
        rw [hattach] at hstatus ⊢
        have hfree : ((with_node a g).attach g ac (pplane_obj "pm_counters.cpu." 0) gc).map.lookup
            (pplane_obj "pm_counters.mem." 1).name = none := by
          rw [Hierarchy.attach, lookup_insert_eq_ite, if_neg (by decide), with_node_map (by decide)]
        obtain ⟨am, gm, ham, hgm, hattach'⟩ := x86_insert_pplane_eq hfree hstatus
        have ham_cpu : am ≠ ac := fun heq =>
          hcpu_mem.1 (by rw [hgc]; exact Option.some_ne_none gc) ac hac (heq ▸ ham)
        have ham_node : am ≠ a := fun heq => hnode_mem.1 (Option.some_ne_none g) a ha (heq ▸ ham)
        have hgm_cpu : gm ≠ gc := fun heq => hcpu_mem.2 gc hgc (heq ▸ hgm)
        have hgm_node : gm ≠ g := fun heq => hnode_mem.2 g rfl (heq ▸ hgm)
        rw [hattach']
        refine hroot.attach rfl ?_ ?_ hfree rfl
          (ne_name_of_head (c := 'p') (by simp [pplane_obj, String.toList_append]) (by decide))
        · have hroot_node : (with_node a g).gnodes.lookup g = some { data := a } := by
            rw [with_node_gnodes, if_pos rfl]
          rw [Hierarchy.attach, lookup_append_leaf hroot_node, if_neg hgm_cpu, if_neg hgm_node, with_node_gnodes,
            if_neg hgm_node]
        · rw [Hierarchy.attach, lookup_insert_eq_ite, if_neg ham_cpu, with_node_objects ham_node]

end Root

section Example

def new_at (address : Nat) : NewObj := ⟨some address, some address⟩

/-- A node with its power planes. -/
def node_alone : Hierarchy := (({} : Hierarchy).x86_insert_node (new_at 1) (new_at 2) (new_at 3)).2

/-- Two threads of one core on socket 0, and the others on socket 7. -/
def two_sockets : Topology where
  physical_package_id ht_id := some (if ht_id = 0 ∨ ht_id = 4 then 0 else 7)
  core_id ht_id := some (if ht_id = 0 ∨ ht_id = 4 then 2 else 1)

/-- The RAPL domains of socket 7 are not found at first. -/
def ht_calls : List HtCall :=
  [⟨4, new_at 10, new_at 11, new_at 12, new_at 13, some (0, 1)⟩, ⟨0, new_at 20, new_at 21, new_at 22, new_at 23,
    none⟩,
   ⟨2, new_at 30, new_at 31, new_at 32, new_at 33, none⟩, ⟨1, new_at 40, new_at 41, new_at 42, new_at 43, some (1,
     1)⟩]

def ht_run : List ((HtCall × Option Nat) × Hierarchy) :=
  run_calls (fun call h => some (h.x86_find_ht two_sockets call)) ht_calls node_alone

theorem ht_run_steps : EachStep (HtStep two_sockets) node_alone ht_run := by
  have hfresh : EachStep (fun h step _ => Fresh h step.1.news) node_alone ht_run := by decide +kernel
  have hcalls := eachStep_run_calls (fun call h => some (h.x86_find_ht two_sockets call)) node_alone ht_calls
  exact (hfresh.and hcalls).imp fun _ _ _ h => ⟨h.1, Option.some.inj h.2⟩

theorem hierarchy_tidy_two_sockets :
    ht_run.map (fun x => x.1.2) = [some 13, some 23, none, some 43] ∧
    (final node_alone ht_run).Tidy two_sockets ∧ (final node_alone ht_run).OneEach := by
  have hroot : node_alone.RootInPlace := x86_insert_node_rootInPlace (by decide +kernel) (by decide +kernel)
  have htidy : node_alone.Tidy two_sockets := hroot.tidy
  have hall := hierarchy_tidy hroot ht_run ht_run_steps (by decide +kernel)
  have hfinal := EachStep.final_of_forall (I := fun h => h.Tidy two_sockets ∧ h.OneEach)
    ⟨htidy, htidy.oneEach⟩ fun x hx => ⟨(hall x hx).1, (hall x hx).2.1⟩
  exact ⟨by decide +kernel, hfinal⟩

end Example

end Hierarchy

end pwrapi.x86
