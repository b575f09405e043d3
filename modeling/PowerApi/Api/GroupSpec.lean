import Mathlib.Data.List.Sort
import PowerApi.Api.GroupCalls
import PowerApi.Api.Records
import PowerApi.Lib.SortedMerge

open HashTable

namespace pwrapi

theorem OPAQUE_GET_DATA_KEY_of_lt {key : UInt64} (hkey : key.toNat < 2 ^ 32) :
    OPAQUE_GET_DATA_KEY key = key := by
  apply UInt64.toNat_inj.mp
  rw [OPAQUE_GET_DATA_KEY, UInt64.toNat_and, Nat.and_comm]
  exact (Nat.and_two_pow_sub_one_eq_mod _ 32).trans (Nat.mod_eq_of_lt hkey)

namespace Library

variable {lib lib' : Library} {handle : UInt64} {grp ctx : Nat} {new : Alloc}

theorem find_group_by_opaque_ok : lib.find_group_by_opaque handle = some (.ok grp) ↔
    lib.opaque_map_lookup_group (OPAQUE_GET_DATA_KEY handle) = some grp ∧
      ∃ g, lib.groups.lookup grp = some g ∧ OPAQUE_GET_CONTEXT_KEY handle = g.context_key := by
  unfold find_group_by_opaque
  cases lib.opaque_map_lookup_group (OPAQUE_GET_DATA_KEY handle) with
  | none => simp
  | some found =>
    cases hg : lib.groups.lookup found with
    | none =>
      simp only [hg, reduceCtorEq, Option.some.injEq, false_iff, not_and, not_exists]
      rintro rfl g hlookup
      rw [hg] at hlookup
      cases hlookup
    | some g =>
      simp only [hg]
      by_cases hkey : OPAQUE_GET_CONTEXT_KEY handle = g.context_key
      · simp only [hkey, ne_eq, not_true_eq_false, if_false, Option.some.injEq, Except.ok.injEq]
        constructor
        · rintro rfl
          exact ⟨rfl, g, hg, rfl⟩
        · exact And.left
      · simp only [hkey, ne_eq, not_false_eq_true, if_true, Option.some.injEq, reduceCtorEq, false_iff,
          not_and, not_exists]
        rintro rfl g' hlookup
        rw [hg] at hlookup
        obtain rfl := Option.some.inj hlookup
        exact hkey

/-- The group's record is there to be read. -/
theorem WellFormed.find_group_isSome (hwf : lib.WellFormed) (handle : UInt64) :
    (lib.find_group_by_opaque handle).isSome := by
  unfold find_group_by_opaque
  cases hfound : lib.opaque_map_lookup_group (OPAQUE_GET_DATA_KEY handle) with
  | none => rfl
  | some grp =>
    have hlive : grp ∈ lib.groups := hwf.found _ .GROUP grp hfound (by simp)
    obtain ⟨g, hg⟩ := Finmap.mem_iff.mp hlive
    simp only [hg]
    split <;> rfl

theorem WellFormed.find_context_ok (hwf : lib.WellFormed)
    (h : lib.find_context_by_opaque handle = .ok ctx) :
    ctx ∈ lib.contexts ∧ OPAQUE_GET_CONTEXT_KEY handle = lib.opaque_key ctx := by
  unfold find_context_by_opaque at h
  cases hfound : lib.opaque_map_lookup_context (OPAQUE_GET_CONTEXT_KEY handle) with
  | none => simp [hfound] at h
  | some found =>
    simp only [hfound] at h
    have hlive : lib.Live .CONTEXT found := hwf.found _ .CONTEXT found hfound (by simp)
    rw [OPAQUE_GET_DATA_KEY_of_lt (hwf.keyed _ _ hlive).range] at h
    by_cases hkey : OPAQUE_GET_CONTEXT_KEY handle = lib.opaque_key found
    · simp only [hkey, ne_eq, not_true_eq_false, if_false, Except.ok.injEq] at h
      subst h
      exact ⟨hlive, hkey⟩
    · simp [hkey] at h

/-- A new group of the context, with a key of its own and the given objects. -/
structure GroupMade (lib : Library) (ctx : Nat) (new : Alloc) (list : List Nat) (lib' : Library) : Prop where
  wf : lib'.WellFormed
  unused : lib.Unused new.address
  groups : lib'.groups = lib.groups.insert new.address { context_key := lib.opaque_key ctx, list }
  found : lib'.opaque_map_lookup_group (lib'.opaque_key new.address) = some new.address
  range : (lib'.opaque_key new.address).toNat < 2 ^ 32
  refs : ∀ record, record ≠ new.address → lib'.opaque_map.refs record = lib.opaque_map.refs record
  finds : ∀ k t record, t ∈ [.CONTEXT, .GROUP, .OBJECT, .STAT] →
    opaque_map_lookup_type lib.opaque_map k t = some record →
    opaque_map_lookup_type lib'.opaque_map k t = some record
  contexts : ∀ record, record ∈ lib'.contexts ↔ record ∈ lib.contexts
  stats : lib'.stats = lib.stats
  objects : lib'.objects = lib.objects
  gnodes : lib'.gnodes = lib.gnodes

theorem context_new_group_made (hwf : lib.WellFormed) (hunused : lib.Unused new.address)
    (h : lib.context_new_group ctx new = some lib') : GroupMade lib ctx new [] lib' := by
  unfold context_new_group new_group at h
  split at h
  · next lib1 record hnew hctx =>
    split at hnew
    · next key map hinsert =>
      obtain rfl := Option.some.inj hnew
      have hmem : ctx ∈ lib.contexts := Finmap.mem_of_lookup_eq_some hctx
      have hne : ctx ≠ new.address := by
        rintro rfl
        exact hunused .CONTEXT hmem
      obtain ⟨-, -, hrefs, -⟩ := lookup_inserted hinsert
      obtain ⟨hmap, hcontexts, hgroups, hstats, hobjects, hgnodes⟩ : lib'.opaque_map = map ∧
          lib'.contexts = lib.contexts.insert ctx { record with group_list := new.address :: record.group_list } ∧
          lib'.groups = (lib.groups.insert new.address {}).insert new.address
            { context_key := (map.refs ctx).key } ∧
          lib'.stats = lib.stats ∧ lib'.objects = lib.objects ∧ lib'.gnodes = lib.gnodes := by
        obtain rfl := Option.some.inj h
        exact ⟨rfl, rfl, rfl, rfl, rfl, rfl⟩
      rw [Finmap.insert_insert, hrefs, Function.update_of_ne hne] at hgroups
      have hcontext : ∀ r, r ∈ lib'.contexts ↔ r ∈ lib.contexts := by
        intro r
        rw [hcontexts]
        exact mem_insert_iff hmem
      have hwf' : lib'.WellFormed := by
        refine hwf.inserted (hmap ▸ hinsert) hunused fun t r => ?_
        cases t with
        | CONTEXT => simpa [Live] using hcontext r
        | GROUP => simp [Live, hgroups, Finmap.mem_insert, or_comm]
        | _ => simp [Live, hstats, hobjects]
      have hlive : lib'.Live .GROUP new.address := by simp [Live, hgroups, Finmap.mem_insert]
      exact { wf := hwf', unused := hunused, groups := hgroups, found := (hwf'.keyed _ _ hlive).found,
              range := (hwf'.keyed _ _ hlive).range,
              refs := fun r hr => by rw [hmap, hrefs, Function.update_of_ne hr],
              finds := fun k t r ht hr => hmap ▸ hwf.lookup_type_inserted hunused hinsert ht hr,
              contexts := hcontext, stats := hstats, objects := hobjects, gnodes := hgnodes }
    · cases hnew
  · cases h

section Made

variable {lib1 : Library} {list list' : List Nat}

theorem GroupMade.lookup_new (hmade : GroupMade lib ctx new list lib') :
    lib'.groups.lookup new.address = some { context_key := lib.opaque_key ctx, list } := by
  rw [hmade.groups, Finmap.lookup_insert]

theorem GroupMade.lookup_other (hmade : GroupMade lib ctx new list lib') {other : Nat}
    (hne : other ≠ new.address) : lib'.groups.lookup other = lib.groups.lookup other := by
  rw [hmade.groups, Finmap.lookup_insert_of_ne _ hne]

theorem GroupMade.ne_of_lookup (hmade : GroupMade lib ctx new list lib') {g : Group}
    (hg : lib.groups.lookup grp = some g) : grp ≠ new.address := by
  rintro rfl
  exact hmade.unused .GROUP (Finmap.mem_of_lookup_eq_some hg)

/-- The new group may be filled afterwards. -/
theorem GroupMade.fill (hmade : GroupMade lib ctx new list lib1)
    (h : lib' = { lib1 with groups := lib1.groups.insert new.address
                              { context_key := lib.opaque_key ctx, list := list' } }) :
    GroupMade lib ctx new list' lib' := by
  have hgroup : ∀ r, r ∈ lib'.groups ↔ r ∈ lib1.groups := by
    intro r
    rw [h, hmade.groups]
    simp [Finmap.mem_insert]
  have hmap : lib'.opaque_map = lib1.opaque_map := by rw [h]
  have hkey : lib'.opaque_key new.address = lib1.opaque_key new.address := by rw [opaque_key, hmap, opaque_key]
  constructor
  · refine hmade.wf.congr hmap fun t r => ?_
    cases t with
    | GROUP => exact hgroup r
    | _ => simp [Live, h]
  · exact hmade.unused
  · rw [h, hmade.groups, Finmap.insert_insert]
  · rw [opaque_map_lookup_group, hmap, hkey]
    exact hmade.found
  · rw [hkey]
    exact hmade.range
  · rw [hmap]
    exact hmade.refs
  · rw [hmap]
    exact hmade.finds
  · rw [h]
    exact hmade.contexts
  · rw [h]
    exact hmade.stats
  · rw [h]
    exact hmade.objects
  · rw [h]
    exact hmade.gnodes

/-- The handle that is returned stands for the new group. -/
theorem GroupMade.find (hmade : GroupMade lib ctx new list lib')
    (hctx : (lib.opaque_key ctx).toNat < 2 ^ 32) :
    lib'.find_group_by_opaque (OPAQUE_GENERATE (lib.opaque_key ctx) (lib'.opaque_key new.address)) =
      some (.ok new.address) := by
  rw [find_group_by_opaque_ok, OPAQUE_GET_DATA_KEY_generate hctx hmade.range,
    OPAQUE_GET_CONTEXT_KEY_generate hctx hmade.range]
  exact ⟨hmade.found, _, hmade.lookup_new, rfl⟩

end Made

end Library

theorem group_compare_obj_le {obj1 obj2 : Nat} : group_compare_obj obj1 obj2 ≤ 0 ↔ obj1 ≤ obj2 := by
  unfold group_compare_obj
  split
  · omega
  · split <;> omega

theorem group_compare_obj_eq_lt {obj1 obj2 : Nat} : group_compare_obj obj1 obj2 = -1 ↔ obj1 < obj2 := by
  unfold group_compare_obj
  split
  · omega
  · split <;> omega

theorem group_compare_obj_eq_zero {obj1 obj2 : Nat} : group_compare_obj obj1 obj2 = 0 ↔ obj1 = obj2 := by
  unfold group_compare_obj
  split
  · omega
  · split <;> omega

/-- Sequences that are searched from the front, and where an insertion goes before the first
object that is not smaller. -/
abbrev ordered_sequence : GSequence where
  g_sequence_lookup list obj := list.idxOf? obj
  g_sequence_insert_sorted list obj := list.orderedInsert (· ≤ ·) obj
  lookup_some _ hlookup := by
    obtain ⟨hi, heq, -⟩ := List.idxOf?_eq_some_iff.mp hlookup
    rw [List.getElem?_eq_getElem hi, heq]
  lookup_none _ hlookup := List.idxOf?_eq_none_iff.mp hlookup
  insert_perm _ _ _ := List.perm_orderedInsert _ _ _
  insert_sorted _ _ hsorted := by
    refine List.Pairwise.imp group_compare_obj_le.mpr ?_
    exact (hsorted.imp group_compare_obj_le.mp).orderedInsert _ _

/-- The walk over two groups appends their sorted merge. -/
theorem group_walk_eq (first both second : Bool) (list rest1 rest2 : List Nat) :
    group_walk first both second list rest1 rest2 = list ++ sorted_merge first both second rest1 rest2 := by
  fun_induction group_walk first both second list rest1 rest2 with
  | case1 list rest2 hsecond => rw [sorted_merge, if_pos hsecond]
  | case2 list rest2 hsecond => rw [sorted_merge, if_neg hsecond, List.append_nil]
  | case3 list rest1 hne hfirst =>
    obtain ⟨obj1, rest1, rfl⟩ := List.exists_cons_of_ne_nil hne
    rw [sorted_merge, if_pos hfirst]
  | case4 list rest1 hne hfirst =>
    obtain ⟨obj1, rest1, rfl⟩ := List.exists_cons_of_ne_nil hne
    rw [sorted_merge, if_neg hfirst, List.append_nil]
  | case5 list obj1 rest1 obj2 rest2 hlt ih =>
    rw [sorted_merge, if_pos (group_compare_obj_eq_lt.mp hlt)]
    refine ih.trans ?_
    by_cases hfirst : first = true <;> simp [hfirst]
  | case6 list obj1 rest1 obj2 rest2 hlt heq ih =>
    obtain rfl := group_compare_obj_eq_zero.mp heq
    rw [sorted_merge, if_neg (lt_irrefl obj1), if_neg (lt_irrefl obj1)]
    refine ih.trans ?_
    by_cases hboth : both = true <;> simp [hboth]
  | case7 list obj1 rest1 obj2 rest2 hlt heq ih =>
    have hle : ¬ obj1 < obj2 := fun h => hlt (group_compare_obj_eq_lt.mpr h)
    have hne : obj1 ≠ obj2 := fun h => heq (group_compare_obj_eq_zero.mpr h)
    rw [sorted_merge, if_neg hle, if_pos (show obj2 < obj1 by omega)]
    refine ih.trans ?_
    by_cases hsecond : second = true <;> simp [hsecond]

end pwrapi
