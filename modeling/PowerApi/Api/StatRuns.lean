import PowerApi.Api.StatLists

open Execution HashTable

namespace pwrapi

open Library in
/-- The group whose members the call changes. -/
def StatCall.Changes (lib : Library) : StatCall → Option Nat
  | .Group (.AddObj group object) =>
    match lib.find_member group object with
    | some (.ok (grp, obj)) => if obj ∈ lib.members grp then none else some grp
    | _ => none
  | .Group (.RemoveObj group object) =>
    match lib.find_member group object with
    | some (.ok (grp, obj)) => if obj ∈ lib.members grp then some grp else none
    | _ => none
  | _ => none

/-- The group that the call destroys. -/
def StatCall.Ends (lib : Library) : StatCall → Option Nat
  | .GrpDestroy group =>
    match lib.find_group_by_opaque group, lib.find_context_by_opaque group with
    | some (.ok grp), .ok _ => some grp
    | _, _ => none
  | _ => none

/-- The call changes the members of no group that has a live statistic. -/
def StatCall.Undisturbed (lib : Library) (call : StatCall) : Prop :=
  ∀ grp ∈ call.Changes lib, ∀ stat, ¬ lib.On stat grp

namespace Library

instance (lib : Library) (stat grp : Nat) : Decidable (lib.On stat grp) :=
  decidable_of_iff ((lib.stats.lookup stat).bind lib.stat_group = some grp) Option.bind_eq_some_iff

theorem forall_not_on_iff {lib : Library} {grp : Nat} :
    (∀ stat ∈ lib.stats.keys, ¬ lib.On stat grp) ↔ ∀ stat, ¬ lib.On stat grp := by
  constructor
  · intro h stat hon
    obtain ⟨s, hs, -⟩ := id hon
    exact h stat (Finmap.mem_keys.mpr (Finmap.mem_of_lookup_eq_some hs)) hon
  · exact fun h stat _ => h stat

instance (lib : Library) (call : StatCall) : Decidable (call.Undisturbed lib) :=
  decidable_of_iff (∀ grp ∈ call.Changes lib, ∀ stat ∈ lib.stats.keys, ¬ lib.On stat grp)
    (forall_congr' fun _ => forall_congr' fun _ => forall_not_on_iff)

end Library

/-- What is claimed of a step: the lists are in order afterwards, what changed or ended a group
invalidated its statistics and touched no other, and the next walk reads no freed record. -/
structure Orderly (lib : Library) (step : StatCall × Reply) (lib' : Library) : Prop where
  listed : lib'.StatsListed
  changed : ∀ grp ∈ step.1.Changes lib, lib.Invalidates grp lib'
  ended : ∀ grp ∈ step.1.Ends lib, lib.Invalidates grp lib'
  walks : ∀ grp ∈ lib'.groups, (lib'.group_invalidate_statistics grp).isSome

/-- A step of the runs: a call, with its new record at an unused address, and its reply. -/
def StatStep [GSequence] (lib : Library) (step : StatCall × Reply) (lib' : Library) : Prop :=
  (∀ new ∈ step.1.new, lib.Unused new.address) ∧ step.1.perform lib = some (step.2, lib')

namespace Library

variable {lib lib' lib1 : Library} {grp ctx stat obj : Nat} {new : Alloc} {list : List Nat} {reply : Reply}
  {group object statObj time : UInt64}

theorem StatsListed.walks (hlisted : lib.StatsListed) (grp : Nat) (hgrp : grp ∈ lib.groups) :
    (lib.group_invalidate_statistics grp).isSome := by
  obtain ⟨g, hg⟩ := Finmap.mem_iff.mp hgrp
  obtain ⟨lib1, hwalk, -⟩ := hlisted.walked hg
  rw [hwalk]
  rfl

theorem Makes.tended (h : lib.Makes reply lib' list) (htended : lib.Tended) (hlisted : lib.StatsListed)
    (hlist : list.Pairwise (· < ·)) : lib'.Tended ∧ lib'.StatsListed := by
  obtain ⟨ctx, new, hctx, hmade, -, -⟩ := h
  exact ⟨hmade.tended htended hctx hlist, hmade.listed htended hlisted⟩

/-- The calls that make a group from others keep the lists in order. -/
theorem operation_tended {first both second : Bool} {group1 group2 : UInt64} (htended : lib.Tended)
    (hlisted : lib.StatsListed) (hunused : lib.Unused new.address)
    (h : group_operation (fun l1 l2 l3 => group_walk first both second l3 l1 l2) group1 group2 new lib =
      some (reply, lib')) : lib'.Tended ∧ lib'.StatsListed := by
  rcases group_operation_spec htended.wf hunused h with hfails | ⟨grp1, grp2, g1, g2, -, -, hg1, hg2, hmakes⟩
  · rw [hfails.2]
    exact ⟨htended, hlisted⟩
  · exact hmakes.tended htended hlisted
      (walk_sorted first both second (htended.sorted grp1 g1 hg1) (htended.sorted grp2 g2 hg2))

section Members

variable [GSequence]

/-- A group's members have changed after the walk over its statistics: with a statistic on the group its
list is one that was freed, and without one all is in order. -/
def MembersChanged (lib : Library) (grp : Nat) (lib' : Library) : Prop :=
  (∃ stat, lib.On stat grp) ∧ ¬ lib'.StatsListed ∨
  (∀ stat, ¬ lib.On stat grp) ∧ lib'.stats = lib.stats ∧ lib'.Tended ∧ lib'.StatsListed

omit [GSequence] in
theorem Walked.members_changed {lib1 : Library} {g : Group} (hwalked : lib.Walked grp g lib1) (htended : lib.Tended)
    (hlisted : lib.StatsListed) (hg : lib.groups.lookup grp = some g) :
    ∃ g1, lib1.groups.lookup grp = some g1 ∧ g1.list = g.list ∧
      ∀ list lib', list.Pairwise (· < ·) →
        { lib1 with groups := lib1.groups.insert grp { g1 with list } } = lib' → MembersChanged lib grp lib' := by
  obtain ⟨g1, hg1, hlist1, hcases⟩ := hwalked.regroup hg
  refine ⟨g1, hg1, hlist1, fun list lib' hsorted heq => ?_⟩
  rcases hcases list lib' heq.symm with ⟨hon, hfreed⟩ | ⟨hnone, rfl⟩
  · exact Or.inl ⟨hon, hfreed⟩
  · exact Or.inr ⟨hnone, rfl, htended.regroup _ hg hsorted, hlisted.regroup hg⟩

/-- An insertion finds the object, or is made after the walk over the group's statistics. -/
theorem group_insert_obj_cases (htended : lib.Tended) (hlisted : lib.StatsListed)
    (h : lib.group_insert_obj grp obj = some lib') :
    obj ∈ lib.members grp ∧ lib' = lib ∨ obj ∉ lib.members grp ∧ MembersChanged lib grp lib' := by
  unfold group_insert_obj at h
  cases hg : lib.groups.lookup grp with
  | none => simp [hg] at h
  | some g =>
    have hsorted := htended.sorted grp g hg
    obtain ⟨lib1, hwalk, hwalked⟩ := hlisted.walked hg
    obtain ⟨g1, hg1, hlist1, hmembers⟩ := hwalked.members_changed htended hlisted hg
    simp only [hg, hwalk, hg1] at h
    rw [members_eq hg, List.mem_toFinset]
    cases hfound : g_sequence_lookup g.list obj with
    | some iter =>
      simp only [hfound, Option.some.injEq] at h
      exact Or.inl ⟨List.mem_of_getElem? (GSequence.lookup_some (sequence_sorted hsorted) hfound), h.symm⟩
    | none =>
      simp only [hfound, Option.some.injEq] at h
      have hobj := GSequence.lookup_none (sequence_sorted hsorted) hfound
      refine Or.inr ⟨hobj, hmembers _ lib' ?_ h⟩
      rw [hlist1]
      exact (insert_sorted_spec hsorted hobj).1

theorem group_remove_obj_cases (htended : lib.Tended) (hlisted : lib.StatsListed)
    (h : lib.group_remove_obj grp obj = some lib') :
    obj ∉ lib.members grp ∧ lib' = lib ∨ obj ∈ lib.members grp ∧ MembersChanged lib grp lib' := by
  unfold group_remove_obj at h
  cases hg : lib.groups.lookup grp with
  | none => simp [hg] at h
  | some g =>
    have hsorted := htended.sorted grp g hg
    obtain ⟨lib1, hwalk, hwalked⟩ := hlisted.walked hg
    obtain ⟨g1, hg1, hlist1, hmembers⟩ := hwalked.members_changed htended hlisted hg
    simp only [hg, hwalk, hg1] at h
    rw [members_eq hg, List.mem_toFinset]
    cases hfound : g_sequence_lookup g.list obj with
    | none =>
      simp only [hfound, Option.some.injEq] at h
      exact Or.inl ⟨GSequence.lookup_none (sequence_sorted hsorted) hfound, h.symm⟩
    | some iter =>
      simp only [hfound, Option.some.injEq] at h
      have hobj := GSequence.lookup_some (sequence_sorted hsorted) hfound
      refine Or.inr ⟨List.mem_of_getElem? hobj, hmembers _ lib' ?_ h⟩
      rw [hlist1]
      exact (eraseIdx_spec hsorted hobj).1

end Members

section Statistics

variable {name : PwrAttrName} {statistic : PwrAttrStat} {monitor : Monitor} {thread : Bool} {s : Stat}

theorem init_group_stat_eq {grplen status : Int} {faults : List String}
    (h : lib.init_group_stat group name statistic grplen monitor stat = some (status, faults, lib')) :
    ∃ s' : Stat, s'.grp = group ∧ lib' = { lib with stats := lib.stats.insert stat s' } := by
  unfold init_group_stat at h
  split at h
  · cases h
  · next s hs =>
    refine ⟨{ s with grp := group, attr := name, stat := statistic, objcount := grplen }, rfl, ?_⟩
    simp only at h
    split at h
    · cases h
    · split at h
      · exact (congrArg (fun r => r.2.2) (Option.some.inj h)).symm
      · split at h
        · exact (congrArg (fun r => r.2.2) (Option.some.inj h)).symm
        · exact (congrArg (fun r => r.2.2) (Option.some.inj h)).symm

/-- A group that can be counted belongs to a context, so its handle is not zero. -/
theorem handle_ne_zero_of_counted {counted : Reply} (htended : lib.Tended)
    (h : lib.PWR_GrpGetNumObjs group = some counted) (hpos : ¬ counted.status ≤ 0) : group ≠ 0 := by
  unfold PWR_GrpGetNumObjs at h
  split at h
  · cases h
  · obtain rfl := Option.some.inj h
    exact absurd (show (-1 : Int) ≤ 0 by decide) hpos
  · next grp hgrp =>
    obtain ⟨-, g, hg, hkey⟩ := find_group_by_opaque_ok.mp hgrp
    obtain ⟨ctx, hctx, hhome⟩ := htended.homed grp g hg
    rintro rfl
    exact (htended.wf.keyed .CONTEXT ctx hctx).nonzero (hhome.symm.trans hkey.symm)

/-- A statistic is created and listed, or the group is as it was. -/
theorem PWR_GrpCreateStat_tended (htended : lib.Tended) (hlisted : lib.StatsListed)
    (hunused : lib.Unused new.address)
    (h : PWR_GrpCreateStat group name statistic monitor new lib = some (reply, lib')) :
    lib'.Tended ∧ lib'.StatsListed := by
  have hsame : ∀ {r : Reply}, some (r, lib) = some (reply, lib') → lib'.Tended ∧ lib'.StatsListed := by
    intro r hr
    rw [← (Prod.mk.inj (Option.some.inj hr)).2]
    exact ⟨htended, hlisted⟩
  simp only [PWR_GrpCreateStat] at h
  split at h
  · exact hsame h
  split at h
  · exact hsame h
  split at h
  · exact hsame h
  next grp hgrp =>
  split at h
  · cases h
  next counted hcounted =>
  split at h
  · exact hsame h
  next hpos =>
  split at h
  · exact hsame h
  split at h
  · exact hsame h
  split at h
  · cases h
  · exact hsame h
  next lib1 hnew =>
  have hzero := handle_ne_zero_of_counted htended hcounted hpos
  obtain ⟨g, hg⟩ := Finmap.mem_iff.mp (htended.wf.found _ .GROUP grp hgrp (by simp))
  obtain ⟨stats, hstats, -⟩ := hlisted grp g hg
  obtain ⟨s, hmade⟩ := group_new_statistic_made htended.wf hunused hg hstats hnew
  split at h
  · cases h
  next status faults lib2 hinit =>
  obtain ⟨s', rfl, rfl⟩ := init_group_stat_eq hinit
  have hmade' := hmade.init s'
  have hgroup : stat_group { lib1 with stats := lib1.stats.insert new.address s' } s' = some grp :=
    stat_group_eq_some.mpr ⟨hzero, hmade.finds _ _ _ (by simp) hgrp⟩
  have htended' := hmade'.tended htended hg fun _ => by rw [hgroup]; rfl
  have hlisted' := hmade'.listed htended hlisted hg hstats hgroup
  split at h
  · have hon : On { lib1 with stats := lib1.stats.insert new.address s' } new.address grp :=
      ⟨s', Finmap.lookup_insert _, hgroup⟩
    split at h
    · cases h
    · next more lib3 hdel =>
      rw [← (Prod.mk.inj (Option.some.inj h)).2]
      obtain ⟨htended3, hlisted3, -⟩ := group_del_statistic_spec htended' hlisted' hon hdel
      exact ⟨htended3, hlisted3⟩
  · rw [← (Prod.mk.inj (Option.some.inj h)).2]
    exact ⟨htended', hlisted'⟩

theorem PWR_StatDestroy_tended (htended : lib.Tended) (hlisted : lib.StatsListed)
    (h : PWR_StatDestroy statObj lib = some (reply, lib')) : lib'.Tended ∧ lib'.StatsListed := by
  have hsame : ∀ {r : Reply}, some (r, lib) = some (reply, lib') → lib'.Tended ∧ lib'.StatsListed := by
    intro r hr
    rw [← (Prod.mk.inj (Option.some.inj hr)).2]
    exact ⟨htended, hlisted⟩
  unfold PWR_StatDestroy at h
  split at h
  · exact hsame h
  next stat hstat =>
  split at h
  · exact hsame h
  next ctx hctx =>
  split at h
  · cases h
  next s hs =>
  split at h
  · next hgrp =>
    split at h
    · exact hsame h
    · next grp hfound =>
      split at h
      · cases h
      · next faults lib1 hdel =>
        rw [← (Prod.mk.inj (Option.some.inj h)).2]
        have hon : lib.On stat grp := ⟨s, hs, stat_group_eq_some.mpr ⟨hgrp, hfound⟩⟩
        obtain ⟨htended', hlisted', -⟩ := group_del_statistic_spec htended hlisted hon hdel
        exact ⟨htended', hlisted'⟩
  · next hgrp =>
    split at h
    · cases h
    · next lib1 hdel =>
      rw [← (Prod.mk.inj (Option.some.inj h)).2]
      have hdone := context_del_statistic_dropped htended.wf hdel
      refine ⟨hdone.tended htended, hdone.listed_of_not_on htended.wf hlisted ?_⟩
      rintro grp ⟨s', hs', hgroup⟩
      rw [hs] at hs'
      obtain rfl := Option.some.inj hs'
      exact hgrp (stat_group_eq_some.mp hgroup).1

/-- A statistic that is written to without changing its handles stays listed as it was. -/
theorem touch_tended (s' : Stat) (htended : lib.Tended) (hlisted : lib.StatsListed)
    (hs : lib.stats.lookup stat = some s) (hgrp : s'.grp = s.grp)
    (h : lib' = { lib with stats := lib.stats.insert stat s' }) : lib'.Tended ∧ lib'.StatsListed := by
  subst h
  have hgroup : stat_group { lib with stats := lib.stats.insert stat s' } s' = lib.stat_group s := by
    rw [stat_group, stat_group, hgrp]
    rfl
  refine ⟨⟨?_, htended.sorted, htended.homed, fun other t ht ht' => ?_⟩, fun grp g hg => ?_⟩
  · refine htended.wf.congr rfl fun t r => ?_
    cases t with
    | STAT => exact mem_insert_iff (Finmap.mem_of_lookup_eq_some hs)
    | _ => exact Iff.rfl
  · rw [lookup_insert_eq_ite] at ht
    split at ht
    · obtain rfl := Option.some.inj ht
      rw [hgroup]
      exact htended.tied stat s hs (hgrp ▸ ht')
    · exact htended.tied other t ht ht'
  · obtain ⟨stats, hstats, hnodup, hmem⟩ := hlisted grp g hg
    refine ⟨stats, hstats, hnodup, fun other => ?_⟩
    rw [hmem other]
    unfold On
    simp only [lookup_insert_eq_ite]
    by_cases hother : other = stat
    · rw [hother]
      simp [hs, hgroup]
    · simp only [hother, if_false]
      rfl

theorem find_valid_stat_ok (h : lib.find_valid_stat statObj = some (.ok (stat, s))) :
    lib.stats.lookup stat = some s := by
  unfold find_valid_stat at h
  split at h
  · cases h
  · split at h
    · cases h
    · next s' hs' =>
      split at h
      · cases h
      · obtain ⟨rfl, rfl⟩ := Prod.mk.inj (Except.ok.inj (Option.some.inj h))
        exact hs'

theorem PWR_StatStart_tended (htended : lib.Tended) (hlisted : lib.StatsListed)
    (h : PWR_StatStart statObj time thread lib = some (reply, lib')) : lib'.Tended ∧ lib'.StatsListed := by
  unfold PWR_StatStart at h
  split at h
  · cases h
  · rw [← (Prod.mk.inj (Option.some.inj h)).2]
    exact ⟨htended, hlisted⟩
  · next stat s hfound =>
    have hs := find_valid_stat_ok hfound
    split at h
    · exact touch_tended { s with start := time } htended hlisted hs rfl
        (Prod.mk.inj (Option.some.inj h)).2.symm
    · exact touch_tended ({ s with start := time, stop := 0 }.start_thread thread) htended hlisted hs rfl
        (Prod.mk.inj (Option.some.inj h)).2.symm

theorem PWR_StatStop_tended (htended : lib.Tended) (hlisted : lib.StatsListed)
    (h : PWR_StatStop statObj time lib = some (reply, lib')) : lib'.Tended ∧ lib'.StatsListed := by
  unfold PWR_StatStop at h
  split at h
  · cases h
  · rw [← (Prod.mk.inj (Option.some.inj h)).2]
    exact ⟨htended, hlisted⟩
  · next stat s hfound =>
    have hs := find_valid_stat_ok hfound
    split at h
    · exact touch_tended { s with stop := time } htended hlisted hs rfl
        (Prod.mk.inj (Option.some.inj h)).2.symm
    · exact touch_tended { s with stop := time }.stop_thread htended hlisted hs rfl
        (Prod.mk.inj (Option.some.inj h)).2.symm

end Statistics

theorem PWR_GrpDestroy_cases (h : PWR_GrpDestroy group lib = some (reply, lib')) :
    (StatCall.GrpDestroy group).Ends lib = none ∧ lib' = lib ∨
    ∃ grp ctx, (StatCall.GrpDestroy group).Ends lib = some grp ∧
      lib.find_group_by_opaque group = some (.ok grp) ∧ lib.context_del_group ctx grp = some lib' := by
  unfold PWR_GrpDestroy at h
  cases hfound : lib.find_group_by_opaque group with
  | none => simp [hfound] at h
  | some found =>
    cases found with
    | error faults =>
      simp only [hfound, Option.some.injEq, Prod.mk.injEq] at h
      exact Or.inl ⟨by simp [StatCall.Ends, hfound], h.2.symm⟩
    | ok grp =>
      cases hctx : lib.find_context_by_opaque group with
      | error faults =>
        simp only [hfound, hctx, Option.some.injEq, Prod.mk.injEq] at h
        exact Or.inl ⟨by simp [StatCall.Ends, hfound, hctx], h.2.symm⟩
      | ok ctx =>
        simp only [hfound, hctx] at h
        split at h
        · cases h
        · next lib1 hdel =>
          obtain ⟨-, rfl⟩ := Prod.mk.inj (Option.some.inj h)
          exact Or.inr ⟨grp, ctx, by simp [StatCall.Ends, hfound, hctx], rfl, hdel⟩

theorem invalidates_of_not_on (hnone : ∀ stat, ¬ lib.On stat grp) (hstats : lib'.stats = lib.stats) :
    lib.Invalidates grp lib' := by
  intro stat
  rw [hstats]
  cases hs : lib.stats.lookup stat with
  | none => rfl
  | some s =>
    have hne : lib.stat_group s ≠ some grp := fun h => hnone stat ⟨s, hs, h⟩
    simp [hne]

section Step

variable [GSequence] {call : StatCall}

/-- One step keeps the lists in order and is orderly, or it changes the members of a group with
a live statistic and leaves the group a list that was freed. -/
def StepOutcome (lib : Library) (call : StatCall) (reply : Reply) (lib' : Library) : Prop :=
  (∃ grp ∈ call.Changes lib, ∃ stat, lib.On stat grp) ∧ ¬ lib'.StatsListed ∨
  (∀ grp ∈ call.Changes lib, ∀ stat, ¬ lib.On stat grp) ∧ lib'.Tended ∧ Orderly lib (call, reply) lib'

omit [GSequence] in
/-- The step of a call that neither changes a group's members nor ends a group. -/
theorem StepOutcome.of_tended (hchanges : call.Changes lib = none) (hends : call.Ends lib = none)
    (htended : lib'.Tended) (hlisted : lib'.StatsListed) : StepOutcome lib call reply lib' := by
  refine Or.inr ⟨by simp [hchanges], htended, hlisted, by simp [hchanges], by simp [hends], hlisted.walks⟩

omit [GSequence] in
/-- The step of a call that changes a group's members. -/
theorem StepOutcome.of_members_changed (hchanges : call.Changes lib = some grp) (hends : call.Ends lib = none)
    (h : MembersChanged lib grp lib') : StepOutcome lib call reply lib' := by
  rcases h with ⟨hon, hfreed⟩ | ⟨hnone, hstats, htended, hlisted⟩
  · exact Or.inl ⟨⟨grp, hchanges, hon⟩, hfreed⟩
  · refine Or.inr ⟨?_, htended, hlisted, ?_, by simp [hends], hlisted.walks⟩
    · simpa [hchanges] using hnone
    · simpa [hchanges] using invalidates_of_not_on hnone hstats

theorem add_step (htended : lib.Tended) (hlisted : lib.StatsListed)
    (h : PWR_GrpAddObj group object lib = some (reply, lib')) :
    StepOutcome lib (.Group (.AddObj group object)) reply lib' := by
  unfold PWR_GrpAddObj at h
  split at h
  · cases h
  · next faults hfound =>
    obtain ⟨-, rfl⟩ := Prod.mk.inj (Option.some.inj h)
    exact .of_tended (by simp [StatCall.Changes, hfound]) rfl htended hlisted
  · next grp obj hfound =>
    split at h
    · cases h
    · next lib1 hinsert =>
      obtain ⟨-, rfl⟩ := Prod.mk.inj (Option.some.inj h)
      rcases group_insert_obj_cases htended hlisted hinsert with ⟨hobj, rfl⟩ | ⟨hobj, hmembers⟩
      · exact .of_tended (by simp [StatCall.Changes, hfound, hobj]) rfl htended hlisted
      · exact .of_members_changed (by simp [StatCall.Changes, hfound, hobj]) (by simp [StatCall.Ends]) hmembers

theorem remove_step (htended : lib.Tended) (hlisted : lib.StatsListed)
    (h : PWR_GrpRemoveObj group object lib = some (reply, lib')) :
    StepOutcome lib (.Group (.RemoveObj group object)) reply lib' := by
  unfold PWR_GrpRemoveObj at h
  split at h
  · cases h
  · next faults hfound =>
    obtain ⟨-, rfl⟩ := Prod.mk.inj (Option.some.inj h)
    exact .of_tended (by simp [StatCall.Changes, hfound]) rfl htended hlisted
  · next grp obj hfound =>
    split at h
    · cases h
    · next lib1 hremove =>
      obtain ⟨-, rfl⟩ := Prod.mk.inj (Option.some.inj h)
      rcases group_remove_obj_cases htended hlisted hremove with ⟨hobj, rfl⟩ | ⟨hobj, hmembers⟩
      · exact .of_tended (by simp [StatCall.Changes, hfound, hobj]) rfl htended hlisted
      · exact .of_members_changed (by simp [StatCall.Changes, hfound, hobj]) (by simp [StatCall.Ends]) hmembers

omit [GSequence] in
theorem destroy_step (htended : lib.Tended) (hlisted : lib.StatsListed)
    (h : PWR_GrpDestroy group lib = some (reply, lib')) :
    StepOutcome lib (.GrpDestroy group) reply lib' := by
  rcases PWR_GrpDestroy_cases h with ⟨hends, rfl⟩ | ⟨grp, ctx, hends, hfound, hdel⟩
  · exact .of_tended rfl hends htended hlisted
  · obtain ⟨-, g, hg, -⟩ := find_group_by_opaque_ok.mp hfound
    have hlive : lib.Live .GROUP grp := Finmap.mem_of_lookup_eq_some hg
    have hdone := context_del_group_destroyed htended.wf hlisted hdel hlive
    have hlisted' := hdone.listed htended.wf hlisted
    refine Or.inr ⟨by simp [StatCall.Changes], hdone.tended htended, hlisted', by simp [StatCall.Changes], ?_,
      hlisted'.walks⟩
    simpa [hends] using hdone.stats

theorem step_outcome (htended : lib.Tended) (hlisted : lib.StatsListed)
    (h : StatStep lib (call, reply) lib') : StepOutcome lib call reply lib' := by
  obtain ⟨hunused, hperform⟩ := h
  cases call with
  | Group call =>
    cases call with
    | Create context new =>
      rcases PWR_GrpCreate_spec htended.wf (hunused new rfl) hperform with hfails | hmakes
      · exact .of_tended rfl rfl (hfails.2 ▸ htended) (hfails.2 ▸ hlisted)
      · obtain ⟨htended', hlisted'⟩ := hmakes.tended htended hlisted List.Pairwise.nil
        exact .of_tended rfl rfl htended' hlisted'
    | Duplicate group1 new =>
      rcases PWR_GrpDuplicate_spec htended.wf (hunused new rfl) hperform with hfails | ⟨grp1, g1, -, hg1, hmakes⟩
      · exact .of_tended rfl rfl (hfails.2 ▸ htended) (hfails.2 ▸ hlisted)
      · obtain ⟨htended', hlisted'⟩ := hmakes.tended htended hlisted (htended.sorted grp1 g1 hg1)
        exact .of_tended rfl rfl htended' hlisted'
    | AddObj group object => exact add_step htended hlisted hperform
    | RemoveObj group object => exact remove_step htended hlisted hperform
    | Union group1 group2 new | Intersection group1 group2 new | Difference group1 group2 new
    | SymDifference group1 group2 new =>
      obtain ⟨htended', hlisted'⟩ := operation_tended htended hlisted (hunused new rfl) hperform
      exact .of_tended rfl rfl htended' hlisted'
  | GrpDestroy group => exact destroy_step htended hlisted hperform
  | GrpCreateStat group name statistic monitor new =>
    obtain ⟨htended', hlisted'⟩ := PWR_GrpCreateStat_tended htended hlisted (hunused new rfl) hperform
    exact .of_tended rfl rfl htended' hlisted'
  | StatStart statObj time thread =>
    obtain ⟨htended', hlisted'⟩ := PWR_StatStart_tended htended hlisted hperform
    exact .of_tended rfl rfl htended' hlisted'
  | StatStop statObj time =>
    obtain ⟨htended', hlisted'⟩ := PWR_StatStop_tended htended hlisted hperform
    exact .of_tended rfl rfl htended' hlisted'
  | StatDestroy statObj =>
    obtain ⟨htended', hlisted'⟩ := PWR_StatDestroy_tended htended hlisted hperform
    exact .of_tended rfl rfl htended' hlisted'

end Step

/-- At the start there are no groups, and the statistics are of objects. -/
theorem tended_of_empty (hwf : lib.WellFormed) (hgroups : lib.groups = ∅)
    (hstats : ∀ stat s, lib.stats.lookup stat = some s → s.grp = 0) : lib.Tended ∧ lib.StatsListed := by
  have hnone : ∀ grp, lib.groups.lookup grp = none := fun grp => by rw [hgroups, Finmap.lookup_empty]
  refine ⟨⟨hwf, fun grp g hg => ?_, fun grp g hg => ?_, fun stat s hs hgrp => ?_⟩, fun grp g hg => ?_⟩
  · rw [hnone grp] at hg
    cases hg
  · rw [hnone grp] at hg
    cases hg
  · exact absurd (hstats stat s hs) hgrp
  · rw [hnone grp] at hg
    cases hg

/-- The lists of statistics stay in order exactly in the runs in which no call changes the
members of a group that has a live statistic. -/
theorem statistics_listed_iff [GSequence] {run : List ((StatCall × Reply) × Library)} (hwf : lib.WellFormed)
    (hgroups : lib.groups = ∅) (hstats : ∀ stat s, lib.stats.lookup stat = some s → s.grp = 0)
    (hrun : EachStep StatStep lib run) :
    EachStep Orderly lib run ↔ EachStep (fun lib step _ => step.1.Undisturbed lib) lib run := by
  refine hrun.iff_of_invariant (I := fun lib => lib.Tended ∧ lib.StatsListed)
    (tended_of_empty hwf hgroups hstats) ?_ ?_
  · rintro lib ⟨call, reply⟩ lib' hstep ⟨htended, hlisted⟩ hcondition
    rcases step_outcome htended hlisted hstep with ⟨⟨grp, hgrp, stat, hon⟩, -⟩ | ⟨-, htended', horderly⟩
    · exact absurd hon (hcondition grp hgrp stat)
    · exact ⟨htended', horderly.listed⟩
  · rintro lib ⟨call, reply⟩ lib' hstep ⟨htended, hlisted⟩
    rcases step_outcome htended hlisted hstep with ⟨⟨grp, hgrp, stat, hon⟩, hfreed⟩ | ⟨hnone, -, horderly⟩
    · exact iff_of_false (fun h => hfreed h.listed) fun h => h grp hgrp stat hon
    · exact iff_of_true horderly hnone

/-- A group of two objects with a started statistic, that is then destroyed. -/
def monitored_calls : List StatCall :=
  [.Group (.Create (OPAQUE_GENERATE 5 5) ⟨100, [8]⟩),
   .Group (.AddObj (OPAQUE_GENERATE 5 8) (OPAQUE_GENERATE 5 6)),
   .Group (.AddObj (OPAQUE_GENERATE 5 8) (OPAQUE_GENERATE 5 7)),
   .GrpCreateStat (OPAQUE_GENERATE 5 8) .POWER .MAX {} ⟨101, [9]⟩, .StatStart (OPAQUE_GENERATE 5 9) 77 true,
   .GrpDestroy (OPAQUE_GENERATE 5 8)]

/-- The second object comes after the statistic. -/
def disturbed_calls : List StatCall :=
  [.Group (.Create (OPAQUE_GENERATE 5 5) ⟨100, [8]⟩),
   .Group (.AddObj (OPAQUE_GENERATE 5 8) (OPAQUE_GENERATE 5 6)),
   .GrpCreateStat (OPAQUE_GENERATE 5 8) .POWER .MAX {} ⟨101, [9]⟩,
   .Group (.AddObj (OPAQUE_GENERATE 5 8) (OPAQUE_GENERATE 5 7))]

def stat_calls_run (calls : List StatCall) : List ((StatCall × Reply) × Library) :=
  run_calls (@StatCall.perform ordered_sequence) calls node_with_socket

theorem stat_calls_run_steps (calls : List StatCall)
    (hunused : EachStep (fun lib step _ => ∀ new ∈ step.1.new, lib.Unused new.address)
      node_with_socket (stat_calls_run calls)) :
    EachStep (@StatStep ordered_sequence) node_with_socket (stat_calls_run calls) := by
  have hcalls := eachStep_run_calls (@StatCall.perform ordered_sequence) node_with_socket calls
  exact (hunused.and hcalls).imp fun _ _ _ h => h

theorem node_with_socket_no_stats (stat : Nat) (s : Stat) (hs : node_with_socket.stats.lookup stat = some s) :
    s.grp = 0 := by
  rw [node_with_socket, Finmap.lookup_empty] at hs
  cases hs

theorem statistics_listed_iff_monitored : (stat_calls_run monitored_calls).length = 6 ∧
    EachStep Orderly node_with_socket (stat_calls_run monitored_calls) := by
  have hrun := stat_calls_run_steps monitored_calls (by decide +kernel)
  have hiff := @statistics_listed_iff node_with_socket ordered_sequence _ node_with_socket_wellFormed rfl
    node_with_socket_no_stats hrun
  exact ⟨by decide +kernel, hiff.mpr (by decide +kernel)⟩

/-- Adding an object to a group with a statistic leaves the group with a list that was freed,
which the next change of its members walks over. -/
theorem statistics_not_listed :
    EachStep (@StatStep ordered_sequence) node_with_socket (stat_calls_run disturbed_calls) ∧
    ¬ EachStep Orderly node_with_socket (stat_calls_run disturbed_calls) ∧
    (final node_with_socket (stat_calls_run disturbed_calls)).group_invalidate_statistics 100 = none := by
  have hrun := stat_calls_run_steps disturbed_calls (by decide +kernel)
  have hfreed : ((final node_with_socket (stat_calls_run disturbed_calls)).groups.lookup 100).map Group.stat_list =
      some .freed := by decide +kernel
  obtain ⟨g, hg, hstats⟩ := Option.map_eq_some_iff.mp hfreed
  have hwalk : (final node_with_socket (stat_calls_run disturbed_calls)).group_invalidate_statistics 100 = none := by
    simp only [group_invalidate_statistics, hg, hstats]
  refine ⟨hrun, fun horderly => ?_, hwalk⟩
  have hall := (forall_mem_iff_eachStep (P := StatsListed)).mpr
    (horderly.imp (S := fun _ _ lib' => lib'.StatsListed) fun _ _ _ h => h.listed)
  have hinit := (tended_of_empty node_with_socket_wellFormed rfl node_with_socket_no_stats).2
  obtain ⟨stats, hnodes, -⟩ := EachStep.final_of_forall hinit hall 100 g hg
  rw [hstats] at hnodes
  cases hnodes

end Library

end pwrapi
