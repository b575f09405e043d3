import PowerApi.Api.GroupSpec

open Execution HashTable

namespace pwrapi

namespace Library

/-- The set of a group's objects. -/
def members (lib : Library) (grp : Nat) : Finset Nat :=
  match lib.groups.lookup grp with
  | none => ∅
  | some g => g.list.toFinset

/-- The handle returned stands for a new group with the given members. All the groups that
were there, the operands among them, are as they were. -/
def NewGroup (lib : Library) (reply : Reply) (lib' : Library) (set : Finset Nat) : Prop :=
  ∃ grp, lib.groups.lookup grp = none ∧ lib'.find_group_by_opaque reply.handle = some (.ok grp) ∧
    lib'.members grp = set ∧ ∀ other, other ≠ grp → lib'.groups.lookup other = lib.groups.lookup other

/-- The group of a handle has other members, and the other groups are as they were. -/
def Regrouped (lib : Library) (group object : UInt64) (lib' : Library)
    (change : Nat → Finset Nat → Finset Nat) : Prop :=
  ∃ grp obj, lib.find_member group object = some (.ok (grp, obj)) ∧
    lib'.members grp = change obj (lib.members grp) ∧
    ∀ other, other ≠ grp → lib'.groups.lookup other = lib.groups.lookup other

/-- An operation on the groups of two handles made a new group. -/
def Combined (lib : Library) (group1 group2 : UInt64) (reply : Reply) (lib' : Library)
    (operation : Finset Nat → Finset Nat → Finset Nat) : Prop :=
  ∃ grp1 grp2, lib.find_group_by_opaque group1 = some (.ok grp1) ∧
    lib.find_group_by_opaque group2 = some (.ok grp2) ∧
    NewGroup lib reply lib' (operation (lib.members grp1) (lib.members grp2))

/-- The handle leads to a group. -/
def IsGroup (lib : Library) (group : UInt64) : Prop := ∃ grp, lib.find_group_by_opaque group = some (.ok grp)

/-- Every handle or key that leads to a group, an object or a context still does. -/
structure HandlesKept (lib lib' : Library) : Prop where
  groups : ∀ group grp, lib.find_group_by_opaque group = some (.ok grp) →
    lib'.find_group_by_opaque group = some (.ok grp)
  objects : ∀ key obj, lib.opaque_map_lookup_object key = some obj → lib'.opaque_map_lookup_object key = some obj
  contexts : ∀ key ctx, lib.opaque_map_lookup_context key = some ctx → lib'.opaque_map_lookup_context key = some ctx

end Library

/-- The call failed and did nothing. -/
def Library.Fails (lib : Library) (reply : Reply) (lib' : Library) : Prop :=
  reply.status ≠ PWR_RET_SUCCESS ∧ lib' = lib

/-- What a call that succeeds does to the groups as sets. -/
def GroupCall.Effect (lib : Library) (reply : Reply) (lib' : Library) : GroupCall → Prop
  | .Create _ _ => lib.NewGroup reply lib' ∅
  | .Duplicate group1 _ => ∃ grp1, lib.find_group_by_opaque group1 = some (.ok grp1) ∧
      lib.NewGroup reply lib' (lib.members grp1)
  | .AddObj group object => lib.Regrouped group object lib' fun obj set => insert obj set
  | .RemoveObj group object => lib.Regrouped group object lib' fun obj set => set.erase obj
  | .Union group1 group2 _ => lib.Combined group1 group2 reply lib' (· ∪ ·)
  | .Intersection group1 group2 _ => lib.Combined group1 group2 reply lib' (· ∩ ·)
  | .Difference group1 group2 _ => lib.Combined group1 group2 reply lib' (· \ ·)
  | .SymDifference group1 group2 _ => lib.Combined group1 group2 reply lib' symmDiff

/-- What a call asks of its handles: live groups, objects and contexts, all of one context. -/
def GroupCall.Callable (lib : Library) : GroupCall → Prop
  | .Create context _ => OPAQUE_GET_CONTEXT_KEY context = OPAQUE_GET_DATA_KEY context ∧
      ∃ ctx, lib.opaque_map_lookup_context (OPAQUE_GET_CONTEXT_KEY context) = some ctx
  | .Duplicate group1 _ => lib.IsGroup group1
  | .AddObj group object | .RemoveObj group object =>
    OPAQUE_GET_CONTEXT_KEY object = OPAQUE_GET_CONTEXT_KEY group ∧ lib.IsGroup group ∧
      ∃ obj, lib.opaque_map_lookup_object (OPAQUE_GET_DATA_KEY object) = some obj
  | .Union group1 group2 _ | .Intersection group1 group2 _ | .Difference group1 group2 _
  | .SymDifference group1 group2 _ =>
    OPAQUE_GET_CONTEXT_KEY group1 = OPAQUE_GET_CONTEXT_KEY group2 ∧ lib.IsGroup group1 ∧ lib.IsGroup group2

/-- A call with the handles that it asks for succeeds and has its effect, any other fails
and does nothing. No handle is lost. -/
structure SetStep (lib : Library) (step : GroupCall × Reply) (lib' : Library) : Prop where
  succeeds : step.1.Callable lib → step.2.status = PWR_RET_SUCCESS ∧ step.1.Effect lib step.2 lib'
  fails : ¬ step.1.Callable lib → lib.Fails step.2 lib'
  kept : lib.HandlesKept lib'

/-- The numbers drawn are those that the insertion into the opaque map needs. -/
def Alloc.Draws (new : Alloc) (lib : Library) : Prop :=
  ∃ key map, opaque_map_insert .GROUP new.address new.draws lib.opaque_map = some (key, [], map)

/-- A step of the runs: a call, with its new record at an unused address, and its reply. -/
def GroupStep [GSequence] (lib : Library) (step : GroupCall × Reply) (lib' : Library) : Prop :=
  (∀ new ∈ step.1.new, lib.Unused new.address) ∧ step.1.perform lib = some (step.2, lib')

namespace Library

/-- The groups are ascending sequences, in the order of the comparison of objects. -/
def Ascending (lib : Library) : Prop :=
  ∀ grp g, lib.groups.lookup grp = some g → g.list.Pairwise fun obj1 obj2 => group_compare_obj obj1 obj2 = -1

/-- The invariant of the group calls. -/
structure GroupsOnly (lib : Library) : Prop where
  wf : lib.WellFormed
  sorted : ∀ grp g, lib.groups.lookup grp = some g → g.list.Pairwise (· < ·)
  no_stats : ∀ grp g, lib.groups.lookup grp = some g → g.stat_list = .nodes []

/-- The invariant of the group calls, with a context for each group. -/
structure OwnedGroups (lib : Library) : Prop extends GroupsOnly lib where
  owned : ∀ grp g, lib.groups.lookup grp = some g → ∃ ctx ∈ lib.contexts, g.context_key = lib.opaque_key ctx

variable {lib lib' : Library} {grp ctx : Nat} {new : Alloc} {list : List Nat}

theorem HandlesKept.refl (lib : Library) : lib.HandlesKept lib :=
  ⟨fun _ _ => id, fun _ _ => id, fun _ _ => id⟩

theorem GroupsOnly.ascending (hinv : lib.GroupsOnly) : lib.Ascending := by
  intro grp g hg
  exact (hinv.sorted grp g hg).imp group_compare_obj_eq_lt.mpr

theorem GroupsOnly.of_empty (hwf : lib.WellFormed) (hgroups : lib.groups = ∅) : lib.GroupsOnly where
  wf := hwf
  sorted grp g hg := by
    rw [hgroups] at hg
    cases hg
  no_stats grp g hg := by
    rw [hgroups] at hg
    cases hg

theorem OwnedGroups.of_empty (hwf : lib.WellFormed) (hgroups : lib.groups = ∅) : lib.OwnedGroups where
  toGroupsOnly := GroupsOnly.of_empty hwf hgroups
  owned grp g hg := by
    rw [hgroups] at hg
    cases hg

/-- With a group there is its context. -/
theorem OwnedGroups.find_context (hinv : lib.OwnedGroups) {group : UInt64}
    (h : lib.find_group_by_opaque group = some (.ok grp)) : ∃ ctx, lib.find_context_by_opaque group = .ok ctx := by
  obtain ⟨-, g, hg, hkey⟩ := find_group_by_opaque_ok.mp h
  obtain ⟨ctx, hctx, hown⟩ := hinv.owned grp g hg
  have hkeyed := hinv.wf.keyed .CONTEXT ctx hctx
  have hfound : lib.opaque_map_lookup_context (lib.opaque_key ctx) = some ctx := hkeyed.found
  refine ⟨ctx, ?_⟩
  simp only [hkey, find_context_by_opaque, hown, hfound, OPAQUE_GET_DATA_KEY_of_lt hkeyed.range, ne_eq,
    not_true_eq_false, if_false]

theorem members_eq {g : Group} (hg : lib.groups.lookup grp = some g) : lib.members grp = g.list.toFinset := by
  simp only [members, hg]

theorem GroupMade.groupsOnly (hmade : GroupMade lib ctx new list lib') (hinv : lib.GroupsOnly)
    (hlist : list.Pairwise (· < ·)) : lib'.GroupsOnly where
  wf := hmade.wf
  sorted grp g hg := by
    rw [hmade.groups, lookup_insert_eq_ite] at hg
    split at hg
    · obtain rfl := Option.some.inj hg
      exact hlist
    · exact hinv.sorted grp g hg
  no_stats grp g hg := by
    rw [hmade.groups, lookup_insert_eq_ite] at hg
    split at hg
    · obtain rfl := Option.some.inj hg
      rfl
    · exact hinv.no_stats grp g hg

theorem GroupMade.ownedGroups (hmade : GroupMade lib ctx new list lib') (hinv : lib.OwnedGroups)
    (hctx : ctx ∈ lib.contexts) (hlist : list.Pairwise (· < ·)) : lib'.OwnedGroups where
  toGroupsOnly := hmade.groupsOnly hinv.toGroupsOnly hlist
  owned grp g hg := by
    have hkey : ∀ owner ∈ lib.contexts, lib'.opaque_key owner = lib.opaque_key owner := by
      intro owner howner
      have hne : owner ≠ new.address := by
        rintro rfl
        exact hmade.unused .CONTEXT howner
      exact congrArg OpaqueRef.key (hmade.refs owner hne)
    rw [hmade.groups, lookup_insert_eq_ite] at hg
    split at hg
    · obtain rfl := Option.some.inj hg
      exact ⟨ctx, (hmade.contexts ctx).mpr hctx, (hkey ctx hctx).symm⟩
    · obtain ⟨owner, howner, hown⟩ := hinv.owned grp g hg
      exact ⟨owner, (hmade.contexts owner).mpr howner, hown.trans (hkey owner howner).symm⟩

theorem GroupMade.handlesKept (hmade : GroupMade lib ctx new list lib') : lib.HandlesKept lib' where
  groups group other h := by
    obtain ⟨hfound, g, hg, hkey⟩ := find_group_by_opaque_ok.mp h
    have hlookup := (hmade.lookup_other (hmade.ne_of_lookup hg)).trans hg
    exact find_group_by_opaque_ok.mpr ⟨hmade.finds _ _ _ (by simp) hfound, g, hlookup, hkey⟩
  objects key obj h := hmade.finds _ _ _ (by simp) h
  contexts key owner h := hmade.finds _ _ _ (by simp) h

theorem GroupMade.newGroup (hmade : GroupMade lib ctx new list lib')
    (hctx : (lib.opaque_key ctx).toNat < 2 ^ 32) :
    lib.NewGroup (success (OPAQUE_GENERATE (lib.opaque_key ctx) (lib'.opaque_key new.address))) lib' list.toFinset := by
  refine ⟨new.address, ?_, hmade.find hctx, members_eq hmade.lookup_new, fun other hne => hmade.lookup_other hne⟩
  exact Finmap.lookup_eq_none.mpr (hmade.unused .GROUP)

/-- A group whose members change, with no statistics on any group. -/
theorem OwnedGroups.regroup (hinv : lib.OwnedGroups) {g : Group} (hg : lib.groups.lookup grp = some g)
    (hlist : list.Pairwise (· < ·))
    (h : lib' = { lib with groups := lib.groups.insert grp { g with list } }) :
    lib'.OwnedGroups ∧ lib.HandlesKept lib' ∧ lib'.members grp = list.toFinset ∧
      ∀ other, other ≠ grp → lib'.groups.lookup other = lib.groups.lookup other := by
  subst h
  -- each group has the context and the statistics it had
  have hold : ∀ other g', (lib.groups.insert grp { g with list }).lookup other = some g' →
      ∃ g₀, lib.groups.lookup other = some g₀ ∧ g'.context_key = g₀.context_key ∧ g'.stat_list = g₀.stat_list ∧
        (g'.list = list ∨ g'.list = g₀.list) := by
    intro other g' hg'
    rw [lookup_insert_eq_ite] at hg'
    split at hg'
    · next heq =>
      obtain rfl := Option.some.inj hg'
      exact ⟨g, heq ▸ hg, rfl, rfl, Or.inl rfl⟩
    · exact ⟨g', hg', rfl, rfl, Or.inr rfl⟩
  refine ⟨⟨⟨?_, ?_, ?_⟩, ?_⟩, ⟨?_, fun _ _ => id, fun _ _ => id⟩, by rw [members_eq (Finmap.lookup_insert _)],
    fun other hne => Finmap.lookup_insert_of_ne _ hne⟩
  · refine hinv.wf.congr rfl fun t r => ?_
    have hmem : grp ∈ lib.groups := Finmap.mem_of_lookup_eq_some hg
    cases t with
    | GROUP => exact mem_insert_iff hmem
    | _ => exact Iff.rfl
  · intro other g' hg'
    obtain ⟨g₀, hg₀, -, -, heq | heq⟩ := hold other g' hg'
    · exact heq ▸ hlist
    · exact heq ▸ hinv.sorted other g₀ hg₀
  · intro other g' hg'
    obtain ⟨g₀, hg₀, -, hstat, -⟩ := hold other g' hg'
    exact hstat.trans (hinv.no_stats other g₀ hg₀)
  · intro other g' hg'
    obtain ⟨g₀, hg₀, hkey, -⟩ := hold other g' hg'
    obtain ⟨ctx, hctx, hown⟩ := hinv.owned other g₀ hg₀
    exact ⟨ctx, hctx, hkey.trans hown⟩
  · intro group other h
    obtain ⟨hfound, g₀, hg₀, hkey⟩ := find_group_by_opaque_ok.mp h
    refine find_group_by_opaque_ok.mpr ⟨hfound, ?_⟩
    by_cases heq : other = grp
    · obtain rfl : g₀ = g := Option.some.inj (hg₀.symm.trans (heq ▸ hg))
      exact ⟨{ g₀ with list }, heq ▸ Finmap.lookup_insert _, hkey⟩
    · exact ⟨g₀, (Finmap.lookup_insert_of_ne _ heq).trans hg₀, hkey⟩

theorem GroupsOnly.invalidate (hinv : lib.GroupsOnly) {g : Group} (hg : lib.groups.lookup grp = some g) :
    lib.group_invalidate_statistics grp = some lib := by
  simp only [group_invalidate_statistics, hg, hinv.no_stats grp g hg]

section Sequence

variable [GSequence] {obj i : Nat}

omit [GSequence] in
theorem sequence_sorted (hlist : list.Pairwise (· < ·)) :
    list.Pairwise fun a b => group_compare_obj a b ≤ 0 :=
  hlist.imp fun h => group_compare_obj_le.mpr h.le

theorem insert_sorted_spec (hlist : list.Pairwise (· < ·)) (hobj : obj ∉ list) :
    (g_sequence_insert_sorted list obj).Pairwise (· < ·) ∧
      (g_sequence_insert_sorted list obj).toFinset = insert obj list.toFinset := by
  have hperm := GSequence.insert_perm list obj (sequence_sorted hlist)
  have hnodup : (g_sequence_insert_sorted list obj).Nodup :=
    hperm.nodup_iff.mpr (List.nodup_cons.mpr ⟨hobj, hlist.imp Nat.ne_of_lt⟩)
  constructor
  · have hle := GSequence.insert_sorted list obj (sequence_sorted hlist)
    exact (hle.and hnodup).imp fun h => lt_of_le_of_ne (group_compare_obj_le.mp h.1) h.2
  · rw [List.toFinset_eq_of_perm _ _ hperm, List.toFinset_cons]

omit [GSequence] in
theorem eraseIdx_spec (hlist : list.Pairwise (· < ·)) (hobj : list[i]? = some obj) :
    (list.eraseIdx i).Pairwise (· < ·) ∧ (list.eraseIdx i).toFinset = list.toFinset.erase obj := by
  have hnodup : list.Nodup := hlist.imp Nat.ne_of_lt
  obtain ⟨hi, hget⟩ := List.getElem?_eq_some_iff.mp hobj
  refine ⟨hlist.sublist (List.eraseIdx_sublist list i), ?_⟩
  rw [← hnodup.erase_getElem i hi, hget]
  ext other
  simp only [List.mem_toFinset, Finset.mem_erase, hnodup.mem_erase_iff]

/-- Insertion leaves an object that is there, and else puts it in its place. -/
theorem group_insert_obj_spec (hinv : lib.OwnedGroups) (h : lib.group_insert_obj grp obj = some lib') :
    lib'.OwnedGroups ∧ lib.HandlesKept lib' ∧ lib'.members grp = insert obj (lib.members grp) ∧
      ∀ other, other ≠ grp → lib'.groups.lookup other = lib.groups.lookup other := by
  unfold group_insert_obj at h
  cases hg : lib.groups.lookup grp with
  | none => simp [hg] at h
  | some g =>
    have hsorted := hinv.sorted grp g hg
    simp only [hg, hinv.invalidate hg] at h
    cases hfound : g_sequence_lookup g.list obj with
    | some iter =>
      simp only [hfound, Option.some.injEq] at h
      subst h
      have hmem : obj ∈ g.list := List.mem_of_getElem? (GSequence.lookup_some (sequence_sorted hsorted) hfound)
      refine ⟨hinv, HandlesKept.refl lib, ?_, fun _ _ => rfl⟩
      rw [members_eq hg, Finset.insert_eq_of_mem (List.mem_toFinset.mpr hmem)]
    | none =>
      simp only [hfound, Option.some.injEq] at h
      have hobj := GSequence.lookup_none (sequence_sorted hsorted) hfound
      obtain ⟨hsorted', hset⟩ := insert_sorted_spec hsorted hobj
      obtain ⟨hinv', hkept, hmembers, hothers⟩ := hinv.regroup hg hsorted' h.symm
      exact ⟨hinv', hkept, by rw [hmembers, hset, members_eq hg], hothers⟩

/-- Removal leaves a group that does not have the object. -/
theorem group_remove_obj_spec (hinv : lib.OwnedGroups) (h : lib.group_remove_obj grp obj = some lib') :
    lib'.OwnedGroups ∧ lib.HandlesKept lib' ∧ lib'.members grp = (lib.members grp).erase obj ∧
      ∀ other, other ≠ grp → lib'.groups.lookup other = lib.groups.lookup other := by
  unfold group_remove_obj at h
  cases hg : lib.groups.lookup grp with
  | none => simp [hg] at h
  | some g =>
    have hsorted := hinv.sorted grp g hg
    simp only [hg, hinv.invalidate hg] at h
    cases hfound : g_sequence_lookup g.list obj with
    | none =>
      simp only [hfound, Option.some.injEq] at h
      subst h
      have hobj := GSequence.lookup_none (sequence_sorted hsorted) hfound
      refine ⟨hinv, HandlesKept.refl lib, ?_, fun _ _ => rfl⟩
      rw [members_eq hg, Finset.erase_eq_of_notMem (by rwa [List.mem_toFinset])]
    | some iter =>
      simp only [hfound, Option.some.injEq] at h
      have hobj := GSequence.lookup_some (sequence_sorted hsorted) hfound
      obtain ⟨hsorted', hset⟩ := eraseIdx_spec hsorted hobj
      obtain ⟨hinv', hkept, hmembers, hothers⟩ := hinv.regroup hg hsorted' h.symm
      exact ⟨hinv', hkept, by rw [hmembers, hset, members_eq hg], hothers⟩

end Sequence

section Calls

variable {reply : Reply} {operation : List Nat → List Nat → List Nat → List Nat}
  {set_operation : Finset Nat → Finset Nat → Finset Nat} {group1 group2 context group object : UInt64}

/-- A failed call, or a new group of a context with the given objects. -/
def Makes (lib : Library) (reply : Reply) (lib' : Library) (list : List Nat) : Prop :=
  ∃ ctx new, ctx ∈ lib.contexts ∧ GroupMade lib ctx new list lib' ∧
    (lib.opaque_key ctx).toNat < 2 ^ 32 ∧
      reply = success (OPAQUE_GENERATE (lib.opaque_key ctx) (lib'.opaque_key new.address))

theorem Makes.status_eq (h : lib.Makes reply lib' list) : reply.status = PWR_RET_SUCCESS := by
  obtain ⟨ctx, new, -, -, -, rfl⟩ := h
  rfl

theorem Makes.newGroup (h : lib.Makes reply lib' list) : lib.NewGroup reply lib' list.toFinset := by
  obtain ⟨ctx, new, -, hmade, hctx, rfl⟩ := h
  exact hmade.newGroup hctx

theorem Makes.ownedGroups (h : lib.Makes reply lib' list) (hinv : lib.OwnedGroups)
    (hlist : list.Pairwise (· < ·)) : lib'.OwnedGroups := by
  obtain ⟨ctx, new, hctx, hmade, -, rfl⟩ := h
  exact hmade.ownedGroups hinv hctx hlist

theorem Makes.handlesKept (h : lib.Makes reply lib' list) : lib.HandlesKept lib' := by
  obtain ⟨ctx, new, -, hmade, -, rfl⟩ := h
  exact hmade.handlesKept

theorem failure_status_ne (faults : List String) : (failure faults).status ≠ PWR_RET_SUCCESS :=
  show (-1 : Int) ≠ 0 by decide

theorem fails_of_eq {faults : List String} (h : some (failure faults, lib) = some (reply, lib')) :
    lib.Fails reply lib' := by
  obtain ⟨rfl, rfl⟩ := Prod.mk.inj (Option.some.inj h)
  exact ⟨failure_status_ne faults, rfl⟩

theorem PWR_GrpCreate_spec (hwf : lib.WellFormed) (hunused : lib.Unused new.address)
    (h : PWR_GrpCreate context new lib = some (reply, lib')) :
    lib.Fails reply lib' ∨ lib.Makes reply lib' [] := by
  simp only [PWR_GrpCreate] at h
  split at h
  · exact Or.inl (fails_of_eq h)
  · split at h
    · exact Or.inl (fails_of_eq h)
    · next ctx hctx =>
      split at h
      · cases h
      · next lib1 hnew =>
        obtain ⟨rfl, rfl⟩ := Prod.mk.inj (Option.some.inj h)
        have hmade := context_new_group_made hwf hunused hnew
        have hlive : lib.Live .CONTEXT ctx := hwf.found _ .CONTEXT ctx hctx (by simp)
        have hne : ctx ≠ new.address := by
          rintro rfl
          exact hunused .CONTEXT hlive
        refine Or.inr ⟨ctx, new, hlive, hmade, (hwf.keyed _ _ hlive).range, ?_⟩
        rw [show lib1.opaque_key ctx = lib.opaque_key ctx from congrArg OpaqueRef.key (hmade.refs ctx hne)]

theorem PWR_GrpDuplicate_spec (hwf : lib.WellFormed) (hunused : lib.Unused new.address)
    (h : PWR_GrpDuplicate group1 new lib = some (reply, lib')) :
    lib.Fails reply lib' ∨ ∃ grp1 g1, lib.find_group_by_opaque group1 = some (.ok grp1) ∧
      lib.groups.lookup grp1 = some g1 ∧ lib.Makes reply lib' g1.list := by
  unfold PWR_GrpDuplicate at h
  split at h
  · cases h
  · exact Or.inl (fails_of_eq h)
  · next grp1 hgrp1 =>
    split at h
    · exact Or.inl (fails_of_eq h)
    · next ctx hctx =>
      obtain ⟨hlive, hkey⟩ := hwf.find_context_ok hctx
      split at h
      · cases h
      · next lib1 hnew =>
        have hmade := context_new_group_made hwf hunused hnew
        obtain ⟨-, g1, hg1, -⟩ := find_group_by_opaque_ok.mp hgrp1
        simp only [group_copy, hmade.lookup_other (hmade.ne_of_lookup hg1), hg1, hmade.lookup_new,
          List.nil_append] at h
        obtain ⟨rfl, rfl⟩ := Prod.mk.inj (Option.some.inj h)
        exact Or.inr ⟨grp1, g1, hgrp1, hg1, ctx, new, hlive, hmade.fill rfl, (hwf.keyed .CONTEXT ctx hlive).range,
          by rw [hkey]⟩

theorem group_operation_spec (hwf : lib.WellFormed) (hunused : lib.Unused new.address)
    (h : group_operation operation group1 group2 new lib = some (reply, lib')) :
    lib.Fails reply lib' ∨ ∃ grp1 grp2 g1 g2, lib.find_group_by_opaque group1 = some (.ok grp1) ∧
      lib.find_group_by_opaque group2 = some (.ok grp2) ∧ lib.groups.lookup grp1 = some g1 ∧
      lib.groups.lookup grp2 = some g2 ∧ lib.Makes reply lib' (operation g1.list g2.list []) := by
  unfold group_operation at h
  split at h
  · exact Or.inl (fails_of_eq h)
  · split at h
    · cases h
    · exact Or.inl (fails_of_eq h)
    · next grp1 hgrp1 =>
      split at h
      · cases h
      · exact Or.inl (fails_of_eq h)
      · next grp2 hgrp2 =>
        split at h
        · exact Or.inl (fails_of_eq h)
        · next ctx hctx =>
          obtain ⟨hlive, hkey⟩ := hwf.find_context_ok hctx
          split at h
          · cases h
          · next lib1 hnew =>
            have hmade := context_new_group_made hwf hunused hnew
            obtain ⟨-, g1, hg1, -⟩ := find_group_by_opaque_ok.mp hgrp1
            obtain ⟨-, g2, hg2, -⟩ := find_group_by_opaque_ok.mp hgrp2
            simp only [fill_group, hmade.lookup_other (hmade.ne_of_lookup hg1), hg1,
              hmade.lookup_other (hmade.ne_of_lookup hg2), hg2, hmade.lookup_new] at h
            obtain ⟨rfl, rfl⟩ := Prod.mk.inj (Option.some.inj h)
            exact Or.inr ⟨grp1, grp2, g1, g2, hgrp1, hgrp2, hg1, hg2, ctx, new, hlive, hmade.fill rfl,
              (hwf.keyed .CONTEXT ctx hlive).range, by rw [hkey]⟩

theorem combined_spec (hinv : lib.OwnedGroups) (hunused : lib.Unused new.address)
    (hoperation : ∀ {list1 list2 : List Nat}, list1.Pairwise (· < ·) → list2.Pairwise (· < ·) →
      (operation list1 list2 []).Pairwise (· < ·) ∧
        (operation list1 list2 []).toFinset = set_operation list1.toFinset list2.toFinset)
    (h : group_operation operation group1 group2 new lib = some (reply, lib')) :
    lib.Fails reply lib' ∨ lib'.OwnedGroups ∧ lib.HandlesKept lib' ∧ reply.status = PWR_RET_SUCCESS ∧
      lib.Combined group1 group2 reply lib' set_operation := by
  rcases group_operation_spec hinv.wf hunused h with hfails | ⟨grp1, grp2, g1, g2, hgrp1, hgrp2, hg1, hg2, hmakes⟩
  · exact Or.inl hfails
  · obtain ⟨hsorted, hset⟩ := hoperation (hinv.sorted grp1 g1 hg1) (hinv.sorted grp2 g2 hg2)
    refine Or.inr ⟨hmakes.ownedGroups hinv hsorted, hmakes.handlesKept, hmakes.status_eq, grp1, grp2, hgrp1, hgrp2, ?_⟩
    rw [members_eq hg1, members_eq hg2, ← hset]
    exact hmakes.newGroup

section Sequence

variable [GSequence]

theorem PWR_GrpAddObj_spec (hinv : lib.OwnedGroups)
    (h : PWR_GrpAddObj group object lib = some (reply, lib')) :
    lib.Fails reply lib' ∨ lib'.OwnedGroups ∧ lib.HandlesKept lib' ∧ reply.status = PWR_RET_SUCCESS ∧
      lib.Regrouped group object lib' fun obj set => insert obj set := by
  unfold PWR_GrpAddObj at h
  split at h
  · cases h
  · exact Or.inl (fails_of_eq h)
  · next grp obj hfound =>
    split at h
    · cases h
    · next lib1 hinsert =>
      obtain ⟨rfl, rfl⟩ := Prod.mk.inj (Option.some.inj h)
      obtain ⟨hinv', hkept, hmembers, hothers⟩ := group_insert_obj_spec hinv hinsert
      exact Or.inr ⟨hinv', hkept, rfl, grp, obj, hfound, hmembers, hothers⟩

theorem PWR_GrpRemoveObj_spec (hinv : lib.OwnedGroups)
    (h : PWR_GrpRemoveObj group object lib = some (reply, lib')) :
    lib.Fails reply lib' ∨ lib'.OwnedGroups ∧ lib.HandlesKept lib' ∧ reply.status = PWR_RET_SUCCESS ∧
      lib.Regrouped group object lib' fun obj set => set.erase obj := by
  unfold PWR_GrpRemoveObj at h
  split at h
  · cases h
  · exact Or.inl (fails_of_eq h)
  · next grp obj hfound =>
    split at h
    · cases h
    · next lib1 hremove =>
      obtain ⟨rfl, rfl⟩ := Prod.mk.inj (Option.some.inj h)
      obtain ⟨hinv', hkept, hmembers, hothers⟩ := group_remove_obj_spec hinv hremove
      exact Or.inr ⟨hinv', hkept, rfl, grp, obj, hfound, hmembers, hothers⟩

end Sequence

theorem walk_sorted (first both second : Bool) {list1 list2 : List Nat} (h1 : list1.Pairwise (· < ·))
    (h2 : list2.Pairwise (· < ·)) : (group_walk first both second [] list1 list2).Pairwise (· < ·) := by
  rw [group_walk_eq, List.nil_append]
  exact SortedMerge.sorted_merge_sorted h1 h2

theorem walk_spec (first both second : Bool)
    (hset : ∀ {list1 list2 : List Nat}, list1.Pairwise (· < ·) → list2.Pairwise (· < ·) →
      (sorted_merge first both second list1 list2).toFinset = set_operation list1.toFinset list2.toFinset)
    {list1 list2 : List Nat} (h1 : list1.Pairwise (· < ·)) (h2 : list2.Pairwise (· < ·)) :
    (group_walk first both second [] list1 list2).Pairwise (· < ·) ∧
      (group_walk first both second [] list1 list2).toFinset = set_operation list1.toFinset list2.toFinset := by
  refine ⟨walk_sorted first both second h1 h2, ?_⟩
  rw [group_walk_eq, List.nil_append]
  exact hset h1 h2

end Calls

section Callable

variable {reply : Reply} {group object context group1 group2 : UInt64}

theorem find_member_ok {obj : Nat} : lib.find_member group object = some (.ok (grp, obj)) ↔
    OPAQUE_GET_CONTEXT_KEY object = OPAQUE_GET_CONTEXT_KEY group ∧
      lib.find_group_by_opaque group = some (.ok grp) ∧
      lib.opaque_map_lookup_object (OPAQUE_GET_DATA_KEY object) = some obj := by
  unfold find_member
  split
  · next hkey => simp [hkey]
  · next hkey =>
    rw [not_not] at hkey
    split
    · next hgroup => simp [hgroup]
    · next hgroup => simp [hgroup]
    · next hgroup =>
      split
      · next hobject => simp [hobject]
      · next hobject => simp [hkey, hgroup, hobject]

/-- A call that asks for more than it got fails. -/
theorem status_iff_of_failed {faults : List String} {callable : Prop}
    (h : some (failure faults, lib) = some (reply, lib')) (hnot : ¬ callable) :
    reply.status = PWR_RET_SUCCESS ↔ callable :=
  iff_of_false (fails_of_eq h).1 hnot

theorem status_iff_of_succeeded {handle : UInt64} {lib1 : Library} {callable : Prop}
    (h : some (success handle, lib1) = some (reply, lib')) (hcallable : callable) :
    reply.status = PWR_RET_SUCCESS ↔ callable := by
  obtain ⟨rfl, rfl⟩ := Prod.mk.inj (Option.some.inj h)
  exact iff_of_true rfl hcallable

theorem PWR_GrpCreate_status_iff (h : PWR_GrpCreate context new lib = some (reply, lib')) :
    reply.status = PWR_RET_SUCCESS ↔ (GroupCall.Create context new).Callable lib := by
  simp only [PWR_GrpCreate] at h
  split at h
  · next hkey => exact status_iff_of_failed h fun hcallable => hkey hcallable.1
  · next hkey =>
    split at h
    · next hnone =>
      refine status_iff_of_failed h ?_
      rintro ⟨-, ctx, hctx⟩
      rw [hnone] at hctx
      cases hctx
    · next ctx hctx =>
      split at h
      · cases h
      · exact status_iff_of_succeeded h ⟨not_not.mp hkey, ctx, hctx⟩

theorem not_isGroup {faults : List String} (h : lib.find_group_by_opaque group = some (.error faults)) :
    ¬ lib.IsGroup group := by
  rintro ⟨grp, hgrp⟩
  rw [h] at hgrp
  cases hgrp

theorem OwnedGroups.duplicate_status_iff (hinv : lib.OwnedGroups)
    (h : PWR_GrpDuplicate group1 new lib = some (reply, lib')) :
    reply.status = PWR_RET_SUCCESS ↔ lib.IsGroup group1 := by
  unfold PWR_GrpDuplicate at h
  split at h
  · cases h
  · next hgroup => exact status_iff_of_failed h (not_isGroup hgroup)
  · next grp1 hgrp1 =>
    obtain ⟨ctx, hctx⟩ := hinv.find_context hgrp1
    simp only [hctx] at h
    split at h
    · cases h
    · split at h
      · cases h
      · exact status_iff_of_succeeded h ⟨grp1, hgrp1⟩

theorem OwnedGroups.operation_status_iff {operation : List Nat → List Nat → List Nat → List Nat}
    (hinv : lib.OwnedGroups) (h : group_operation operation group1 group2 new lib = some (reply, lib')) :
    reply.status = PWR_RET_SUCCESS ↔
      OPAQUE_GET_CONTEXT_KEY group1 = OPAQUE_GET_CONTEXT_KEY group2 ∧ lib.IsGroup group1 ∧ lib.IsGroup group2 := by
  unfold group_operation at h
  split at h
  · next hkey => exact status_iff_of_failed h fun hcallable => hkey hcallable.1
  · next hkey =>
    split at h
    · cases h
    · next hgroup => exact status_iff_of_failed h fun hcallable => not_isGroup hgroup hcallable.2.1
    · next grp1 hgrp1 =>
      split at h
      · cases h
      · next hgroup => exact status_iff_of_failed h fun hcallable => not_isGroup hgroup hcallable.2.2
      · next grp2 hgrp2 =>
        obtain ⟨ctx, hctx⟩ := hinv.find_context hgrp1
        simp only [hctx] at h
        split at h
        · cases h
        · split at h
          · cases h
          · exact status_iff_of_succeeded h ⟨not_not.mp hkey, ⟨grp1, hgrp1⟩, grp2, hgrp2⟩

/-- The two calls on a member differ in what they do with the group. -/
theorem member_status_iff {change : Nat → Nat → Option Library}
    (h : (match lib.find_member group object with
      | none => none
      | some (.error faults) => some (failure faults, lib)
      | some (.ok (grp, obj)) =>
        match change grp obj with
        | none => none
        | some lib => some (success, lib)) = some (reply, lib')) :
    reply.status = PWR_RET_SUCCESS ↔ OPAQUE_GET_CONTEXT_KEY object = OPAQUE_GET_CONTEXT_KEY group ∧
      lib.IsGroup group ∧ ∃ obj, lib.opaque_map_lookup_object (OPAQUE_GET_DATA_KEY object) = some obj := by
  split at h
  · cases h
  · next hfound =>
    refine status_iff_of_failed h ?_
    rintro ⟨hkey, ⟨grp, hgrp⟩, obj, hobj⟩
    rw [find_member_ok.mpr ⟨hkey, hgrp, hobj⟩] at hfound
    cases hfound
  · next grp obj hfound =>
    obtain ⟨hkey, hgrp, hobj⟩ := find_member_ok.mp hfound
    split at h
    · cases h
    · exact status_iff_of_succeeded h ⟨hkey, ⟨grp, hgrp⟩, obj, hobj⟩

/-- A call succeeds exactly with the handles that it asks for. -/
theorem OwnedGroups.status_iff [GSequence] (hinv : lib.OwnedGroups) {call : GroupCall}
    (h : call.perform lib = some (reply, lib')) : reply.status = PWR_RET_SUCCESS ↔ call.Callable lib := by
  cases call with
  | Create context new => exact PWR_GrpCreate_status_iff h
  | Duplicate group1 new => exact hinv.duplicate_status_iff h
  | AddObj group object | RemoveObj group object => exact member_status_iff h
  | Union group1 group2 new | Intersection group1 group2 new | Difference group1 group2 new
  | SymDifference group1 group2 new => exact hinv.operation_status_iff h

end Callable

/-- One call keeps the invariant and does to the sets what it stands for. -/
theorem OwnedGroups.step [GSequence] {step : GroupCall × Reply} (hinv : lib.OwnedGroups)
    (h : GroupStep lib step lib') : lib'.OwnedGroups ∧ SetStep lib step lib' := by
  obtain ⟨call, reply⟩ := step
  obtain ⟨hunused, hperform⟩ := h
  have hcases : lib.Fails reply lib' ∨
      lib'.OwnedGroups ∧ lib.HandlesKept lib' ∧ reply.status = PWR_RET_SUCCESS ∧ call.Effect lib reply lib' := by
    cases call with
    | Create context new =>
      rcases PWR_GrpCreate_spec hinv.wf (hunused new rfl) hperform with hfails | hmakes
      · exact Or.inl hfails
      · exact Or.inr ⟨hmakes.ownedGroups hinv List.Pairwise.nil, hmakes.handlesKept, hmakes.status_eq, hmakes.newGroup⟩
    | Duplicate group1 new =>
      rcases PWR_GrpDuplicate_spec hinv.wf (hunused new rfl) hperform with hfails | ⟨grp1, g1, hgrp1, hg1, hmakes⟩
      · exact Or.inl hfails
      · refine Or.inr ⟨hmakes.ownedGroups hinv (hinv.sorted grp1 g1 hg1), hmakes.handlesKept, hmakes.status_eq,
          grp1, hgrp1, ?_⟩
        rw [members_eq hg1]
        exact hmakes.newGroup
    | AddObj group object => exact PWR_GrpAddObj_spec hinv hperform
    | RemoveObj group object => exact PWR_GrpRemoveObj_spec hinv hperform
    | Union group1 group2 new =>
      exact combined_spec hinv (hunused new rfl) (walk_spec true true true SortedMerge.toFinset_union) hperform
    | Intersection group1 group2 new =>
      exact combined_spec hinv (hunused new rfl) (walk_spec false true false SortedMerge.toFinset_inter) hperform
    | Difference group1 group2 new =>
      exact combined_spec hinv (hunused new rfl) (walk_spec true false false SortedMerge.toFinset_sdiff) hperform
    | SymDifference group1 group2 new =>
      exact combined_spec hinv (hunused new rfl) (walk_spec true false true SortedMerge.toFinset_symmDiff) hperform
  have hstatus := hinv.status_iff hperform
  rcases hcases with hfails | ⟨hinv', hkept, heffect⟩
  · exact ⟨hfails.2 ▸ hinv, fun hcallable => absurd (hstatus.mpr hcallable) hfails.1, fun _ => hfails,
      hfails.2 ▸ HandlesKept.refl lib⟩
  · exact ⟨hinv', fun _ => heffect, fun hnot => absurd (hstatus.mp heffect.1) hnot, hkept⟩

/-- A new group is made when the context is there and a key is drawn. -/
theorem context_new_group_isSome (hctx : ctx ∈ lib.contexts) (hdraws : new.Draws lib) :
    (lib.context_new_group ctx new).isSome := by
  obtain ⟨key, map, hinsert⟩ := hdraws
  obtain ⟨record, hrecord⟩ := Finmap.mem_iff.mp hctx
  simp [context_new_group, new_group, hinsert, hrecord]

theorem GroupsOnly.find_member_isSome (hinv : lib.GroupsOnly) (group object : UInt64) :
    (lib.find_member group object).isSome := by
  unfold find_member
  split
  · rfl
  · have hsome := hinv.wf.find_group_isSome group
    split
    · next hnone => simp [hnone] at hsome
    · rfl
    · split <;> rfl

section Defined

variable {group object context group1 group2 : UInt64}

theorem GroupsOnly.create_isSome (hinv : lib.GroupsOnly) (hdraws : new.Draws lib) :
    (PWR_GrpCreate context new lib).isSome := by
  simp only [PWR_GrpCreate]
  split
  · rfl
  · split
    · rfl
    · next ctx hctx =>
      have hsome := context_new_group_isSome (hinv.wf.found _ .CONTEXT ctx hctx (by simp)) hdraws
      split
      · next hnone => simp [hnone] at hsome
      · rfl

theorem GroupsOnly.duplicate_isSome (hinv : lib.GroupsOnly) (hunused : lib.Unused new.address)
    (hdraws : new.Draws lib) : (PWR_GrpDuplicate group1 new lib).isSome := by
  have hfind := hinv.wf.find_group_isSome group1
  unfold PWR_GrpDuplicate
  split
  · next hnone => simp [hnone] at hfind
  · rfl
  · next grp1 hgrp1 =>
    obtain ⟨-, g1, hg1, -⟩ := find_group_by_opaque_ok.mp hgrp1
    split
    · rfl
    · next ctx hctx =>
      have hsome := context_new_group_isSome (hinv.wf.find_context_ok hctx).1 hdraws
      split
      · next hnone => simp [hnone] at hsome
      · next lib1 hnew =>
        have hmade := context_new_group_made hinv.wf hunused hnew
        simp only [group_copy, hmade.lookup_other (hmade.ne_of_lookup hg1), hg1, hmade.lookup_new]
        rfl

theorem GroupsOnly.operation_isSome {operation : List Nat → List Nat → List Nat → List Nat}
    (hinv : lib.GroupsOnly) (hunused : lib.Unused new.address) (hdraws : new.Draws lib) :
    (group_operation operation group1 group2 new lib).isSome := by
  have hfind1 := hinv.wf.find_group_isSome group1
  have hfind2 := hinv.wf.find_group_isSome group2
  unfold group_operation
  split
  · rfl
  · split
    · next hnone => simp [hnone] at hfind1
    · rfl
    · next grp1 hgrp1 =>
      obtain ⟨-, g1, hg1, -⟩ := find_group_by_opaque_ok.mp hgrp1
      split
      · next hnone => simp [hnone] at hfind2
      · rfl
      · next grp2 hgrp2 =>
        obtain ⟨-, g2, hg2, -⟩ := find_group_by_opaque_ok.mp hgrp2
        split
        · rfl
        · next ctx hctx =>
          have hsome := context_new_group_isSome (hinv.wf.find_context_ok hctx).1 hdraws
          split
          · next hnone => simp [hnone] at hsome
          · next lib1 hnew =>
            have hmade := context_new_group_made hinv.wf hunused hnew
            simp only [fill_group, hmade.lookup_other (hmade.ne_of_lookup hg1), hg1,
              hmade.lookup_other (hmade.ne_of_lookup hg2), hg2, hmade.lookup_new]
            rfl

variable [GSequence]

theorem GroupsOnly.insert_isSome (hinv : lib.GroupsOnly) (obj : Nat) {g : Group}
    (hg : lib.groups.lookup grp = some g) :
    (lib.group_insert_obj grp obj).isSome := by
  simp only [group_insert_obj, hg, hinv.invalidate hg]
  split <;> rfl

theorem GroupsOnly.remove_isSome (hinv : lib.GroupsOnly) (obj : Nat) {g : Group}
    (hg : lib.groups.lookup grp = some g) :
    (lib.group_remove_obj grp obj).isSome := by
  simp only [group_remove_obj, hg, hinv.invalidate hg]
  split <;> rfl

theorem GroupsOnly.member_isSome (hinv : lib.GroupsOnly) :
    (PWR_GrpAddObj group object lib).isSome ∧ (PWR_GrpRemoveObj group object lib).isSome := by
  have hfind := hinv.find_member_isSome group object
  unfold PWR_GrpAddObj PWR_GrpRemoveObj
  cases hfound : lib.find_member group object with
  | none => simp [hfound] at hfind
  | some found =>
    cases found with
    | error faults => exact ⟨rfl, rfl⟩
    | ok pair =>
      obtain ⟨grp, obj⟩ := pair
      obtain ⟨-, hgrp, -⟩ := find_member_ok.mp hfound
      obtain ⟨-, g, hg, -⟩ := find_group_by_opaque_ok.mp hgrp
      obtain ⟨lib1, hinsert⟩ := Option.isSome_iff_exists.mp (hinv.insert_isSome obj hg)
      obtain ⟨lib2, hremove⟩ := Option.isSome_iff_exists.mp (hinv.remove_isSome obj hg)
      simp [hinsert, hremove]

/-- No call reads a record that is not there. -/
theorem GroupsOnly.defined (hinv : lib.GroupsOnly) (call : GroupCall)
    (hnew : ∀ new ∈ call.new, lib.Unused new.address ∧ new.Draws lib) : (call.perform lib).isSome := by
  cases call with
  | Create context new => exact hinv.create_isSome (hnew new rfl).2
  | Duplicate group1 new => exact hinv.duplicate_isSome (hnew new rfl).1 (hnew new rfl).2
  | AddObj group object => exact hinv.member_isSome.1
  | RemoveObj group object => exact hinv.member_isSome.2
  | Union group1 group2 new | Intersection group1 group2 new | Difference group1 group2 new
  | SymDifference group1 group2 new => exact hinv.operation_isSome (hnew new rfl).1 (hnew new rfl).2

end Defined

/-- In every run of the group calls the groups stay ascending sequences, each call with live
handles of one context succeeds and does to them as sets what it stands for, any other call
fails, and no call goes wrong. -/
theorem groups_are_sets [GSequence] {run : List ((GroupCall × Reply) × Library)} (hwf : lib.WellFormed)
    (hgroups : lib.groups = ∅) (hrun : EachStep GroupStep lib run) :
    (∀ x ∈ run, x.2.Ascending) ∧ EachStep SetStep lib run ∧
      ∀ x ∈ run, ∀ call : GroupCall,
        (∀ new ∈ call.new, x.2.Unused new.address ∧ new.Draws x.2) → (call.perform x.2).isSome := by
  have hinit : lib.OwnedGroups := OwnedGroups.of_empty hwf hgroups
  have hinv : ∀ x ∈ run, x.2.OwnedGroups :=
    hrun.invariant hinit fun _ _ _ hstep hinv => (hinv.step hstep).1
  refine ⟨fun x hx => (hinv x hx).ascending, ?_, fun x hx call hnew => (hinv x hx).defined call hnew⟩
  exact hrun.of_invariant hinit fun _ _ _ hstep hinv => hinv.step hstep

/-- Two groups, one a changed copy of the other, what the operations make of them, and the
union of the first with itself. -/
def nine_calls : List GroupCall :=
  [.Create (OPAQUE_GENERATE 5 5) ⟨100, [8]⟩, .AddObj (OPAQUE_GENERATE 5 8) (OPAQUE_GENERATE 5 7),
   .AddObj (OPAQUE_GENERATE 5 8) (OPAQUE_GENERATE 5 6), .Duplicate (OPAQUE_GENERATE 5 8) ⟨101, [9]⟩,
   .RemoveObj (OPAQUE_GENERATE 5 9) (OPAQUE_GENERATE 5 6),
   .SymDifference (OPAQUE_GENERATE 5 8) (OPAQUE_GENERATE 5 9) ⟨102, [8, 0, 10]⟩,
   .Union (OPAQUE_GENERATE 5 8) (OPAQUE_GENERATE 5 8) ⟨103, [11]⟩,
   .Intersection (OPAQUE_GENERATE 5 8) (OPAQUE_GENERATE 5 9) ⟨104, [12]⟩,
   .Difference (OPAQUE_GENERATE 5 8) (OPAQUE_GENERATE 5 9) ⟨105, [13]⟩]

def nine_calls_run : List ((GroupCall × Reply) × Library) :=
  run_calls (@GroupCall.perform ordered_sequence) nine_calls node_with_socket

theorem nine_calls_run_steps : EachStep (@GroupStep ordered_sequence) node_with_socket nine_calls_run := by
  have hcalls := eachStep_run_calls (@GroupCall.perform ordered_sequence) node_with_socket nine_calls
  have hunused : EachStep (fun lib step _ => ∀ new ∈ step.1.new, lib.Unused new.address)
      node_with_socket nine_calls_run := by decide +kernel
  exact (hunused.and hcalls).imp fun _ _ _ h => h

theorem groups_are_sets_nine_calls : nine_calls_run.length = 9 ∧
    (∀ x ∈ nine_calls_run, x.1.2.status = PWR_RET_SUCCESS) ∧
    (final node_with_socket nine_calls_run).members 102 = {10} ∧
    (final node_with_socket nine_calls_run).members 103 = {10, 20} ∧
    (final node_with_socket nine_calls_run).members 104 = {20} ∧
    (final node_with_socket nine_calls_run).members 105 = {10} ∧
    (∀ x ∈ nine_calls_run, x.2.Ascending) ∧ EachStep SetStep node_with_socket nine_calls_run := by
  have hsets := @groups_are_sets node_with_socket ordered_sequence nine_calls_run
    node_with_socket_wellFormed rfl nine_calls_run_steps
  exact ⟨by decide +kernel, by decide +kernel, by decide +kernel, by decide +kernel, by decide +kernel,
    by decide +kernel, hsets.1, hsets.2.1⟩

end Library

end pwrapi
