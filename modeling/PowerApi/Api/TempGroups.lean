import Mathlib.Order.Interval.Finset.Nat
import PowerApi.Api.NavigationRuns

open HashTable

namespace pwrapi

namespace Library

/-- The library after calls that left no record behind. Key zero may have been drawn, and so may
be in the table. -/
structure Restored (lib lib' : Library) : Prop where
  wf : lib'.WellFormed
  contexts : lib'.contexts = lib.contexts
  groups : lib'.groups = lib.groups
  stats : lib'.stats = lib.stats
  objects : lib'.objects = lib.objects
  gnodes : lib'.gnodes = lib.gnodes
  keys : ∀ key, key ≠ 0 → lib'.opaque_map.table.lookup key = lib.opaque_map.table.lookup key
  refs : ∀ type record, lib.Live type record → lib'.opaque_map.refs record = lib.opaque_map.refs record

/-- The library after calls that may have left groups behind. -/
structure Extended (lib lib' : Library) : Prop where
  wf : lib'.WellFormed
  objects : lib'.objects = lib.objects
  gnodes : lib'.gnodes = lib.gnodes
  groups : ∀ group g, lib.groups.lookup group = some g → lib'.groups.lookup group = some g
  live : ∀ type record, lib.Live type record → lib'.Live type record
  refs : ∀ type record, lib.Live type record → lib'.opaque_map.refs record = lib.opaque_map.refs record

/-- There is a number other than zero that is not a key yet. -/
def HasFreeKey (lib : Library) : Prop :=
  ∃ draw : UInt32, draw ≠ 0 ∧ lib.opaque_map.table.lookup draw.toUInt64 = none

/-- The opaque map has keys for that many more records. -/
def RoomFor (lib : Library) (records : Nat) : Prop := (lib.opaque_map.table.keys.erase 0).card + records < 2 ^ 32

/-- A new group with the given objects, which is the first one of its context. -/
structure TempGroup (lib : Library) (ctx : Nat) (c : Context) (new : Alloc) (list : List Nat) (lib' : Library) :
    Prop where
  made : GroupMade lib ctx new list lib'
  contexts : lib'.contexts = lib.contexts.insert ctx { c with group_list := new.address :: c.group_list }
  free : lib.opaque_map.table.lookup (lib'.opaque_key new.address) = none
  keys : ∀ key, key ≠ 0 → key ≠ lib'.opaque_key new.address →
    lib'.opaque_map.table.lookup key = lib.opaque_map.table.lookup key

/-- A context has lost its first group, and the opaque map its key. -/
structure GroupDeleted (lib : Library) (ctx : Nat) (c : Context) (group : Nat) (lib' : Library) : Prop where
  wf : lib'.WellFormed
  contexts : lib'.contexts = lib.contexts.insert ctx c
  groups : lib'.groups = lib.groups.erase group
  stats : lib'.stats = lib.stats
  objects : lib'.objects = lib.objects
  gnodes : lib'.gnodes = lib.gnodes
  table : lib'.opaque_map.table = lib.opaque_map.table.erase (lib.opaque_key group)
  refs : lib'.opaque_map.refs = Function.update lib.opaque_map.refs group { type := .INVALID, key := 0 }

variable {lib lib1 lib2 lib' : Library} {ctx obj : Nat} {c : Context} {new : Alloc} {list : List Nat}

theorem Restored.refl (hwf : lib.WellFormed) : lib.Restored lib :=
  ⟨hwf, rfl, rfl, rfl, rfl, rfl, fun _ _ => rfl, fun _ _ _ => rfl⟩

theorem Restored.live_iff (h : lib.Restored lib') (type : OpaqueType) (record : Nat) :
    lib'.Live type record ↔ lib.Live type record := by
  cases type with
  | CONTEXT => simp only [Live, h.contexts]
  | GROUP => simp only [Live, h.groups]
  | OBJECT => simp only [Live, h.objects]
  | STAT => simp only [Live, h.stats]
  | _ => exact Iff.rfl

theorem Restored.key_eq (h : lib.Restored lib') {type : OpaqueType} {record : Nat} (hlive : lib.Live type record) :
    lib'.opaque_key record = lib.opaque_key record := congrArg OpaqueRef.key (h.refs type record hlive)

theorem Restored.trans (h : lib.Restored lib1) (h' : lib1.Restored lib2) : lib.Restored lib2 where
  wf := h'.wf
  contexts := h'.contexts.trans h.contexts
  groups := h'.groups.trans h.groups
  stats := h'.stats.trans h.stats
  objects := h'.objects.trans h.objects
  gnodes := h'.gnodes.trans h.gnodes
  keys key hkey := (h'.keys key hkey).trans (h.keys key hkey)
  refs type record hlive := (h'.refs type record ((h.live_iff type record).mpr hlive)).trans (h.refs type record hlive)

section Room

variable {records : Nat}

theorem mem_keys_iff (lib : Library) (key : UInt64) :
    key ∈ lib.opaque_map.table.keys.erase 0 ↔ key ≠ 0 ∧ lib.opaque_map.table.lookup key ≠ none := by
  rw [Finset.mem_erase, Finmap.mem_keys, ne_eq, ne_eq, Finmap.lookup_eq_none, not_not]

/-- Room for a record is a free key, since all the other keys have 32 bits. -/
theorem RoomFor.free_key (hroom : lib.RoomFor (records + 1)) : lib.HasFreeKey := by
  have hcard : ((lib.opaque_map.table.keys.erase 0).image UInt64.toNat).card < (Finset.Icc 1 (2 ^ 32 - 1)).card := by
    refine Finset.card_image_le.trans_lt ?_
    rw [Nat.card_Icc]
    unfold RoomFor at hroom
    omega
  obtain ⟨n, hn, hfree⟩ := Finset.exists_mem_notMem_of_card_lt_card hcard
  rw [Finset.mem_Icc] at hn
  have hdraw : (UInt32.ofNat n).toNat = n := UInt32.toNat_ofNat_of_lt' (by rw [UInt32.size]; omega)
  have hnonzero : UInt32.ofNat n ≠ 0 := by
    intro hzero
    have hn0 : n = 0 := by rw [← hdraw, hzero, UInt32.toNat_zero]
    omega
  refine ⟨UInt32.ofNat n, hnonzero, ?_⟩
  by_contra htaken
  refine hfree (Finset.mem_image.mpr ⟨_, (lib.mem_keys_iff _).mpr ⟨fun hzero => ?_, htaken⟩, ?_⟩)
  · exact hnonzero (UInt32.toUInt64_inj.mp hzero)
  · rw [UInt32.toNat_toUInt64, hdraw]

theorem Restored.room (h : lib.Restored lib') (hroom : lib.RoomFor records) : lib'.RoomFor records := by
  have hkeys : lib'.opaque_map.table.keys.erase 0 = lib.opaque_map.table.keys.erase 0 := by
    ext key
    rw [mem_keys_iff, mem_keys_iff]
    exact and_congr_right fun hkey => by rw [h.keys key hkey]
  rwa [RoomFor, hkeys]

/-- A group takes the room for one record. -/
theorem TempGroup.room (h : TempGroup lib ctx c new list lib1) (hroom : lib.RoomFor (records + 1)) :
    lib1.RoomFor records := by
  have hkeys : lib1.opaque_map.table.keys.erase 0 ⊆
      insert (lib1.opaque_key new.address) (lib.opaque_map.table.keys.erase 0) := by
    intro key hkey
    rw [mem_keys_iff] at hkey
    rw [Finset.mem_insert, mem_keys_iff]
    by_cases hnew : key = lib1.opaque_key new.address
    · exact Or.inl hnew
    · exact Or.inr ⟨hkey.1, h.keys key hkey.1 hnew ▸ hkey.2⟩
  have hcard := (Finset.card_le_card hkeys).trans (Finset.card_insert_le _ _)
  unfold RoomFor at hroom ⊢
  omega

end Room

section Make

/-- The keys that an insertion leaves as they were. -/
theorem lookup_insert_other {type : OpaqueType} {record : Nat} {draws : List UInt32} {map map' : OpaqueMap Nat}
    {key k : UInt64} (h : opaque_map_insert type record draws map = some (key, [], map')) (hzero : k ≠ 0)
    (hne : k ≠ key) : map'.table.lookup k = map.table.lookup k := by
  obtain ⟨_, _, _, rfl⟩ := opaque_map_insert_eq h
  simp only [lookup_insert_eq_ite, if_neg hne]
  split
  · rw [lookup_insert_eq_ite, if_neg hzero]
  · rfl

/-- Where a key can be drawn, there is a new group. -/
theorem context_new_group_temp (hwf : lib.WellFormed) (hunused : lib.Unused new.address) (hdraws : new.Draws lib)
    (hc : lib.contexts.lookup ctx = some c) :
    ∃ lib1, lib.context_new_group ctx new = some lib1 ∧ TempGroup lib ctx c new [] lib1 := by
  obtain ⟨key, map, hinsert⟩ := hdraws
  have hgroup : lib.new_group new =
      some { lib with opaque_map := map, groups := lib.groups.insert new.address {} } := by
    rw [new_group, hinsert]
  have hcontext : ∃ lib1, lib.context_new_group ctx new = some lib1 ∧ lib1.opaque_map = map ∧
      lib1.contexts = lib.contexts.insert ctx { c with group_list := new.address :: c.group_list } := by
    rw [context_new_group, hgroup, hc]
    exact ⟨_, rfl, rfl, rfl⟩
  obtain ⟨lib1, hnew, hmap, hcontexts⟩ := hcontext
  obtain ⟨_, _, hfree, _⟩ := opaque_map_insert_eq hinsert
  obtain ⟨_, _, hrefs, _⟩ := lookup_inserted hinsert
  have hkey : lib1.opaque_key new.address = key := by
    rw [opaque_key, hmap, hrefs, Function.update_self]
  refine ⟨lib1, hnew, context_new_group_made hwf hunused hnew, hcontexts, by rwa [hkey], fun k hzero hne => ?_⟩
  rw [hkey] at hne
  rw [hmap]
  exact lookup_insert_other hinsert hzero hne

variable [GSequence]

/-- An object is put into its place in the group, if it is not there. -/
theorem TempGroup.insert (h : TempGroup lib ctx c new list lib1) (hsorted : list.Pairwise (· < ·)) (obj : Nat) :
    ∃ list' lib2, lib1.group_insert_obj new.address obj = some lib2 ∧ TempGroup lib ctx c new list' lib2 ∧
      list'.Pairwise (· < ·) ∧ ∀ other, other ∈ list' ↔ other ∈ list ∨ other = obj := by
  have hlookup := h.made.lookup_new
  have hwalk : lib1.group_invalidate_statistics new.address = some lib1 := by
    simp only [group_invalidate_statistics, hlookup]
  simp only [group_insert_obj, hlookup, hwalk]
  cases hfound : g_sequence_lookup list obj with
  | some iter =>
    have hmem := List.mem_of_getElem? (GSequence.lookup_some (sequence_sorted hsorted) hfound)
    refine ⟨list, lib1, rfl, h, hsorted, fun other => ⟨Or.inl, ?_⟩⟩
    rintro (hother | rfl)
    · exact hother
    · exact hmem
  | none =>
    have hnew := GSequence.lookup_none (sequence_sorted hsorted) hfound
    refine ⟨g_sequence_insert_sorted list obj, _, rfl, ⟨h.made.fill rfl, h.contexts, h.free, h.keys⟩,
      (insert_sorted_spec hsorted hnew).1, fun other => ?_⟩
    rw [(GSequence.insert_perm list obj (sequence_sorted hsorted)).mem_iff, List.mem_cons, or_comm]

/-- The objects of the nodes are put into the group, in the order of their addresses. -/
theorem TempGroup.children_sorted {nodes : List Nat} (h : TempGroup lib ctx c new list lib1)
    (hsorted : list.Pairwise (· < ·)) (hnodes : ∀ node ∈ nodes, ∃ gnode, lib.gnodes.lookup node = some gnode) :
    ∃ list' lib2, nodes.foldlM (group_insert_callback new.address) lib1 = some lib2 ∧
      TempGroup lib ctx c new list' lib2 ∧ list'.Pairwise (· < ·) ∧
      ∀ other, other ∈ list' ↔ other ∈ list ∨ ∃ node ∈ nodes, ∃ gnode, lib.gnodes.lookup node = some gnode ∧
        gnode.data = other := by
  induction nodes generalizing list lib1 with
  | nil => exact ⟨list, lib1, rfl, h, hsorted, fun other => by simp⟩
  | cons node rest ih =>
    obtain ⟨gnode, hgnode⟩ := hnodes node List.mem_cons_self
    obtain ⟨list1, lib2, hinsert, htemp, hsorted1, hmem1⟩ := h.insert hsorted gnode.data
    obtain ⟨list2, lib3, hfold, htemp2, hsorted2, hmem2⟩ := ih htemp hsorted1 fun n hn => hnodes n (List.mem_cons_of_mem node hn)
    have hone : group_insert_callback new.address lib1 node = some lib2 := by
      rw [group_insert_callback, h.made.gnodes, hgnode]
      exact hinsert
    refine ⟨list2, lib3, ?_, htemp2, hsorted2, fun other => ?_⟩
    · rw [List.foldlM_cons, hone]
      exact hfold
    · rw [hmem2, hmem1, or_assoc]
      refine or_congr_right ?_
      simp [hgnode, eq_comm]

theorem TempGroup.children {nodes : List Nat} (h : TempGroup lib ctx c new list lib1)
    (hsorted : list.Pairwise (· < ·)) (hnodes : ∀ node ∈ nodes, ∃ gnode, lib.gnodes.lookup node = some gnode) :
    ∃ list' lib2, nodes.foldlM (group_insert_callback new.address) lib1 = some lib2 ∧
      TempGroup lib ctx c new list' lib2 ∧
      ∀ other, other ∈ list' ↔ other ∈ list ∨ ∃ node ∈ nodes, ∃ gnode, lib.gnodes.lookup node = some gnode ∧
        gnode.data = other := by
  obtain ⟨list', lib2, hfold, htemp, -, hmem⟩ := h.children_sorted hsorted hnodes
  exact ⟨list', lib2, hfold, htemp, hmem⟩

end Make

section Destroy

/-- The handle of a context's record. -/
def handle (lib : Library) (ctx record : Nat) : UInt64 := OPAQUE_GENERATE (lib.opaque_key ctx) (lib.opaque_key record)

/-- The records that were there are still there. -/
theorem TempGroup.live_of_live (h : TempGroup lib ctx c new list lib1) {type : OpaqueType} {record : Nat}
    (hlive : lib.Live type record) : lib1.Live type record := by
  cases type with
  | CONTEXT => exact (h.made.contexts record).mpr hlive
  | GROUP =>
    show record ∈ lib1.groups
    rw [h.made.groups, Finmap.mem_insert]
    exact Or.inr hlive
  | OBJECT =>
    show record ∈ lib1.objects
    rwa [h.made.objects]
  | STAT =>
    show record ∈ lib1.stats
    rwa [h.made.stats]
  | _ => exact hlive

theorem TempGroup.key_eq (h : TempGroup lib ctx c new list lib1) {type : OpaqueType} {record : Nat}
    (hlive : lib.Live type record) : lib1.opaque_key record = lib.opaque_key record := by
  have hne : record ≠ new.address := by
    rintro rfl
    exact h.made.unused type hlive
  exact congrArg OpaqueRef.key (h.made.refs record hne)

theorem TempGroup.live (h : TempGroup lib ctx c new list lib1) : lib1.Live .GROUP new.address :=
  Finmap.mem_of_lookup_eq_some h.made.lookup_new

theorem Extended.refl (hwf : lib.WellFormed) : lib.Extended lib :=
  ⟨hwf, rfl, rfl, fun _ _ hg => hg, fun _ _ hlive => hlive, fun _ _ _ => rfl⟩

theorem Extended.trans (h : lib.Extended lib1) (h' : lib1.Extended lib2) : lib.Extended lib2 where
  wf := h'.wf
  objects := h'.objects.trans h.objects
  gnodes := h'.gnodes.trans h.gnodes
  groups group g hg := h'.groups group g (h.groups group g hg)
  live type record hlive := h'.live type record (h.live type record hlive)
  refs type record hlive := (h'.refs type record (h.live type record hlive)).trans (h.refs type record hlive)

theorem Extended.key_eq (h : lib.Extended lib') {type : OpaqueType} {record : Nat} (hlive : lib.Live type record) :
    lib'.opaque_key record = lib.opaque_key record := congrArg OpaqueRef.key (h.refs type record hlive)

theorem Extended.handle_eq (h : lib.Extended lib') (hctx : ctx ∈ lib.contexts) (hobj : obj ∈ lib.objects) :
    lib'.handle ctx obj = lib.handle ctx obj := by
  rw [handle, h.key_eq (show lib.Live .CONTEXT ctx from hctx), h.key_eq (show lib.Live .OBJECT obj from hobj), handle]

theorem Restored.extended (h : lib.Restored lib') : lib.Extended lib' where
  wf := h.wf
  objects := h.objects
  gnodes := h.gnodes
  groups group g hg := by rw [h.groups, hg]
  live type record hlive := (h.live_iff type record).mpr hlive
  refs := h.refs

theorem TempGroup.extended (h : TempGroup lib ctx c new list lib1) : lib.Extended lib1 where
  wf := h.made.wf
  objects := h.made.objects
  gnodes := h.made.gnodes
  groups group g hg := by
    rw [h.made.groups, Finmap.lookup_insert_of_ne, hg]
    rintro rfl
    exact h.made.unused .GROUP (Finmap.mem_of_lookup_eq_some hg)
  live _ _ hlive := h.live_of_live hlive
  refs type record hlive := by
    refine h.made.refs record ?_
    rintro rfl
    exact h.made.unused type hlive

/-- While the group is there, its handle stands for it, whatever other groups there are. -/
theorem TempGroup.find_extended (h : TempGroup lib ctx c new list lib1) (hctx : ctx ∈ lib.contexts)
    (hextended : lib1.Extended lib2) :
    lib2.find_group_by_opaque (lib1.handle ctx new.address) = some (.ok new.address) ∧
      lib2.groups.lookup new.address = some { context_key := lib.opaque_key ctx, list } := by
  have hlookup := hextended.groups _ _ h.made.lookup_new
  have hkey : lib1.opaque_key ctx = lib.opaque_key ctx := h.key_eq (show lib.Live .CONTEXT ctx from hctx)
  obtain ⟨hcontext, hdata⟩ := h.made.wf.unpack .GROUP ((h.made.contexts ctx).mpr hctx) h.live
  have hfound := (hextended.wf.keyed .GROUP new.address (hextended.live .GROUP _ h.live)).found
  rw [hextended.key_eq h.live] at hfound
  refine ⟨find_group_by_opaque_ok.mpr ⟨?_, _, hlookup, ?_⟩, hlookup⟩
  · rw [handle, hdata]
    exact hfound
  · rw [handle, hcontext, hkey]

theorem TempGroup.find_group (h : TempGroup lib ctx c new list lib1) (hctx : ctx ∈ lib.contexts)
    (hrestored : lib1.Restored lib2) :
    lib2.find_group_by_opaque (lib1.handle ctx new.address) = some (.ok new.address) ∧
      lib2.groups.lookup new.address = some { context_key := lib.opaque_key ctx, list } :=
  h.find_extended hctx hrestored.extended

/-- Its context is found by the handle of a record. -/
theorem WellFormed.find_context_handle (hwf : lib.WellFormed) (hctx : ctx ∈ lib.contexts) {key : UInt64}
    (hkey : OPAQUE_GET_CONTEXT_KEY key = lib.opaque_key ctx) : lib.find_context_by_opaque key = .ok ctx := by
  have hfound : lib.opaque_map_lookup_context (lib.opaque_key ctx) = some ctx := (hwf.keyed .CONTEXT ctx hctx).found
  simp only [ find_context_by_opaque, hkey, hfound, OPAQUE_GET_DATA_KEY_of_lt (hwf.keyed .CONTEXT ctx hctx).range,
    ne_eq, not_true_eq_false, if_false]

/-- The first group of a context goes, and nothing else. -/
theorem context_del_first_group (hwf : lib.WellFormed) {group : Nat} {g : Group}
    (hentry : lib.contexts.lookup ctx = some { c with group_list := group :: c.group_list })
    (hlookup : lib.groups.lookup group = some g) (hstats : g.stat_list = .nodes []) :
    ∃ lib', lib.context_del_group ctx group = some lib' ∧ GroupDeleted lib ctx c group lib' := by
  have hlive : lib.Live .GROUP group := Finmap.mem_of_lookup_eq_some hlookup
  have hctx : ctx ∈ lib.contexts := Finmap.mem_of_lookup_eq_some hentry
  have hnonzero := (hwf.keyed .GROUP group hlive).nonzero
  rw [opaque_key] at hnonzero
  obtain ⟨htable, hrefs⟩ := hwf.map_removed hlive rfl
  refine ⟨{ lib with
    contexts := lib.contexts.insert ctx c
    opaque_map := (opaque_map_remove lib.opaque_map (lib.opaque_key group)).2
    groups := lib.groups.erase group }, ?_, ?_, rfl, rfl, rfl, rfl, rfl, htable, hrefs⟩
  · simp [context_del_group, hentry, del_group, group_invalidate_statistics, hlookup, hstats, opaque_key, hnonzero]
  · refine hwf.removed hlive rfl (hwf.live_removed hlive (fun r => Finmap.mem_erase.trans and_comm) fun t r ht => ?_)
    cases t with
    | GROUP => exact absurd rfl ht
    | CONTEXT => exact mem_insert_iff hctx
    | _ => exact Iff.rfl

/-- The end of the group restores the library that was there before it. -/
theorem TempGroup.destroy (h : TempGroup lib ctx c new list lib1) (hc : lib.contexts.lookup ctx = some c)
    (hrestored : lib1.Restored lib2) :
    ∃ lib3, lib2.PWR_GrpDestroy (lib1.handle ctx new.address) = some (success, lib3) ∧ lib.Restored lib3 := by
  have hctx : ctx ∈ lib.contexts := Finmap.mem_of_lookup_eq_some hc
  have hctx1 : lib1.Live .CONTEXT ctx := (h.made.contexts ctx).mpr hctx
  have hctx2 : ctx ∈ lib2.contexts := (hrestored.live_iff .CONTEXT ctx).mpr hctx1
  obtain ⟨hgroup, hlookup⟩ := h.find_group hctx hrestored
  have hcontext : lib2.find_context_by_opaque (lib1.handle ctx new.address) = .ok ctx := by
    refine hrestored.wf.find_context_handle hctx2 ?_
    rw [handle, (h.made.wf.unpack .GROUP hctx1 h.live).1, hrestored.key_eq hctx1]
  have hentry : lib2.contexts.lookup ctx = some { c with group_list := new.address :: c.group_list } := by
    rw [hrestored.contexts, h.contexts, Finmap.lookup_insert]
  have hkey : lib2.opaque_key new.address = lib1.opaque_key new.address := hrestored.key_eq h.live
  obtain ⟨lib3, hdel, hdeleted⟩ := context_del_first_group hrestored.wf hentry hlookup rfl
  refine ⟨lib3, by simp only [PWR_GrpDestroy, hgroup, hcontext, hdel], hdeleted.wf, ?_, ?_, ?_, ?_, ?_, ?_, ?_⟩
  · rw [hdeleted.contexts, hrestored.contexts, h.contexts, Finmap.insert_insert]
    exact insert_of_lookup hc
  · rw [hdeleted.groups, hrestored.groups, h.made.groups, erase_insert_self]
    exact erase_of_notMem (h.made.unused .GROUP)
  · rw [hdeleted.stats, hrestored.stats, h.made.stats]
  · rw [hdeleted.objects, hrestored.objects, h.made.objects]
  · rw [hdeleted.gnodes, hrestored.gnodes, h.made.gnodes]
  · intro key hzero
    rw [hdeleted.table, lookup_erase_eq_ite, hkey]
    split
    · next hsame => rw [hsame, h.free]
    · next hne => rw [hrestored.keys key hzero, h.keys key hzero hne]
  · intro type record hlive
    have hne : record ≠ new.address := by
      rintro rfl
      exact h.made.unused type hlive
    rw [hdeleted.refs, Function.update_of_ne hne, hrestored.refs type record (h.live_of_live hlive),
      h.made.refs record hne]

end Destroy

end Library

end pwrapi
