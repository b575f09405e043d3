import PowerApi.Api.GroupSets
import PowerApi.Api.Statistics

open Execution HashTable

namespace pwrapi

/-- A statistic that no longer has a group to monitor. -/
def Stat.invalidated (s : Stat) : Stat := { s.stop_thread with obj := 0, grp := 0 }

namespace Library

/-- The group that a statistic's handle `grp` stands for. -/
def stat_group (lib : Library) (s : Stat) : Option Nat :=
  if s.grp = 0 then none else lib.opaque_map_lookup_group (OPAQUE_GET_DATA_KEY s.grp)

/-- A live statistic whose `grp` is the group. -/
def On (lib : Library) (stat grp : Nat) : Prop :=
  ∃ s, lib.stats.lookup stat = some s ∧ lib.stat_group s = some grp

/-- Each group's list has exactly the live statistics whose `grp` it is, each once. -/
def StatsListed (lib : Library) : Prop :=
  ∀ grp g, lib.groups.lookup grp = some g →
    ∃ stats, g.stat_list = .nodes stats ∧ stats.Nodup ∧ ∀ stat, stat ∈ stats ↔ lib.On stat grp

/-- The statistics on the group are invalidated, and no other one is touched. -/
def Invalidates (lib : Library) (grp : Nat) (lib' : Library) : Prop :=
  ∀ stat, lib'.stats.lookup stat =
    (lib.stats.lookup stat).map fun s => if lib.stat_group s = some grp then s.invalidated else s

/-- What holds of the groups and statistics apart from the lists of statistics. -/
structure Tended (lib : Library) : Prop where
  wf : lib.WellFormed
  sorted : ∀ grp g, lib.groups.lookup grp = some g → g.list.Pairwise (· < ·)
  homed : ∀ grp g, lib.groups.lookup grp = some g →
    ∃ ctx, ctx ∈ lib.contexts ∧ g.context_key = lib.opaque_key ctx
  tied : ∀ stat s, lib.stats.lookup stat = some s → s.grp ≠ 0 → (lib.stat_group s).isSome

variable {lib lib' lib1 : Library} {grp ctx stat : Nat} {new : Alloc} {list : List Nat} {g : Group} {s : Stat}

theorem stat_group_eq_some : lib.stat_group s = some grp ↔
    s.grp ≠ 0 ∧ lib.opaque_map_lookup_group (OPAQUE_GET_DATA_KEY s.grp) = some grp := by
  unfold stat_group
  split
  · next h => simp [h]
  · next h => simp [h]

@[simp] theorem stat_group_invalidated : lib.stat_group s.invalidated = none := rfl

section Invalidate

/-- The walk over the list invalidates exactly its statistics. -/
theorem invalidate_foldlM {stats : List Nat} (h : stats.foldlM stat_invalidate_callback lib = some lib') :
    ∃ S, lib' = { lib with stats := S } ∧ ∀ stat, S.lookup stat =
      (lib.stats.lookup stat).map fun s => if stat ∈ stats then s.invalidated else s := by
  induction stats generalizing lib with
  | nil =>
    obtain rfl := Option.some.inj h
    exact ⟨lib.stats, rfl, by simp⟩
  | cons a rest ih =>
    rw [List.foldlM_cons] at h
    obtain ⟨lib1, hone, hrest⟩ := Option.bind_eq_some_iff.mp h
    unfold stat_invalidate_callback at hone
    cases ha : lib.stats.lookup a with
    | none => simp [ha] at hone
    | some s =>
      simp only [ha, Option.some.injEq] at hone
      subst hone
      obtain ⟨S, rfl, hS⟩ := ih hrest
      refine ⟨S, rfl, fun stat => ?_⟩
      rw [hS stat, lookup_insert_eq_ite]
      by_cases heq : stat = a
      · subst heq
        simp [ha, Stat.invalidated, Stat.stop_thread]
      · simp [heq]

/-- The walk is defined when its statistics are there. -/
theorem invalidate_foldlM_isSome {stats : List Nat} (h : ∀ stat ∈ stats, stat ∈ lib.stats) :
    (stats.foldlM stat_invalidate_callback lib).isSome := by
  induction stats generalizing lib with
  | nil => rfl
  | cons a rest ih =>
    obtain ⟨s, hs⟩ := Finmap.mem_iff.mp (h a List.mem_cons_self)
    simp only [List.foldlM_cons, stat_invalidate_callback, hs, Option.bind_eq_bind, Option.bind_some]
    refine ih fun stat hstat => ?_
    exact Finmap.mem_insert.mpr (Or.inr (h stat (List.mem_cons_of_mem a hstat)))

/-- What `group_invalidate_statistics` does with a list that is in order. -/
structure Walked (lib : Library) (grp : Nat) (g : Group) (lib' : Library) : Prop where
  map : lib'.opaque_map = lib.opaque_map
  contexts : lib'.contexts = lib.contexts
  objects : lib'.objects = lib.objects
  stats : lib.Invalidates grp lib'
  others : ∀ other, other ≠ grp → lib'.groups.lookup other = lib.groups.lookup other
  group : (∃ stat, lib.On stat grp) ∧ lib'.groups.lookup grp = some { g with stat_list := .freed } ∨
    (∀ stat, ¬ lib.On stat grp) ∧ lib' = lib

theorem StatsListed.walked (hlisted : lib.StatsListed) (hg : lib.groups.lookup grp = some g) :
    ∃ lib', lib.group_invalidate_statistics grp = some lib' ∧ lib.Walked grp g lib' := by
  obtain ⟨stats, hstats, -, hmem⟩ := hlisted grp g hg
  cases stats with
  | nil =>
    have hnone : ∀ stat, ¬ lib.On stat grp := fun stat hon => by simpa using (hmem stat).mpr hon
    refine ⟨lib, by simp only [group_invalidate_statistics, hg, hstats], rfl, rfl, rfl, fun stat => ?_,
      fun _ _ => rfl, Or.inr ⟨hnone, rfl⟩⟩
    cases hs : lib.stats.lookup stat with
    | none => rfl
    | some s =>
      have hne : lib.stat_group s ≠ some grp := fun h => hnone stat ⟨s, hs, h⟩
      simp [hne]
  | cons a rest =>
    have hlive : ∀ stat ∈ a :: rest, stat ∈ lib.stats := by
      intro stat hstat
      obtain ⟨s, hs, -⟩ := (hmem stat).mp hstat
      exact Finmap.mem_of_lookup_eq_some hs
    obtain ⟨lib1, hfold⟩ := Option.isSome_iff_exists.mp (invalidate_foldlM_isSome hlive)
    obtain ⟨S, rfl, hS⟩ := invalidate_foldlM hfold
    refine ⟨{ lib with stats := S, groups := lib.groups.insert grp { g with stat_list := .freed } },
      by simp only [group_invalidate_statistics, hg, hstats, hfold], rfl, rfl, rfl, fun stat => ?_,
      fun other hne => Finmap.lookup_insert_of_ne _ hne,
      Or.inl ⟨⟨a, (hmem a).mp List.mem_cons_self⟩, Finmap.lookup_insert _⟩⟩
    rw [hS stat]
    cases hs : lib.stats.lookup stat with
    | none => rfl
    | some s =>
      have hiff : stat ∈ a :: rest ↔ lib.stat_group s = some grp := by
        rw [hmem stat]
        constructor
        · rintro ⟨s', hs', hgroup⟩
          rw [hs] at hs'
          obtain rfl := Option.some.inj hs'
          exact hgroup
        · exact fun hgroup => ⟨s, hs, hgroup⟩
      simp [hiff]

/-- After the walk the group's members are changed: with a statistic on the group its list is
one that was freed, and without one nothing else happened. -/
theorem Walked.regroup (hwalked : lib.Walked grp g lib1) (hg : lib.groups.lookup grp = some g) :
    ∃ g1, lib1.groups.lookup grp = some g1 ∧ g1.list = g.list ∧
      ∀ list lib', lib' = { lib1 with groups := lib1.groups.insert grp { g1 with list } } →
        (∃ stat, lib.On stat grp) ∧ ¬ lib'.StatsListed ∨
        (∀ stat, ¬ lib.On stat grp) ∧ lib' = { lib with groups := lib.groups.insert grp { g with list } } := by
  rcases hwalked.group with ⟨hon, hg1⟩ | ⟨hnone, rfl⟩
  · refine ⟨_, hg1, rfl, ?_⟩
    rintro list lib' rfl
    refine Or.inl ⟨hon, fun hlisted => ?_⟩
    obtain ⟨stats, hfreed, -⟩ := hlisted grp _ (Finmap.lookup_insert _)
    cases hfreed
  · refine ⟨g, hg, rfl, ?_⟩
    rintro list lib' rfl
    exact Or.inr ⟨hnone, rfl⟩

end Invalidate

section Groups

/-- A new group has no statistics, and takes none from the others. -/
theorem GroupMade.tended (hmade : GroupMade lib ctx new list lib') (htended : lib.Tended)
    (hctx : ctx ∈ lib.contexts) (hlist : list.Pairwise (· < ·)) : lib'.Tended where
  wf := hmade.wf
  sorted grp g hg := by
    rw [hmade.groups, lookup_insert_eq_ite] at hg
    split at hg
    · obtain rfl := Option.some.inj hg
      exact hlist
    · exact htended.sorted grp g hg
  homed grp g hg := by
    have hkey : ∀ {r}, r ∈ lib.contexts → lib'.opaque_key r = lib.opaque_key r := by
      intro r hr
      have hne : r ≠ new.address := by
        rintro rfl
        exact hmade.unused .CONTEXT hr
      exact congrArg OpaqueRef.key (hmade.refs r hne)
    rw [hmade.groups, lookup_insert_eq_ite] at hg
    split at hg
    · obtain rfl := Option.some.inj hg
      exact ⟨ctx, (hmade.contexts ctx).mpr hctx, (hkey hctx).symm⟩
    · obtain ⟨r, hr, heq⟩ := htended.homed grp g hg
      exact ⟨r, (hmade.contexts r).mpr hr, by rw [heq, hkey hr]⟩
  tied stat s hs hgrp := by
    rw [hmade.stats] at hs
    obtain ⟨grp, hgroup⟩ := Option.isSome_iff_exists.mp (htended.tied stat s hs hgrp)
    obtain ⟨hne, hfound⟩ := stat_group_eq_some.mp hgroup
    exact Option.isSome_iff_exists.mpr ⟨grp, stat_group_eq_some.mpr ⟨hne, hmade.finds _ _ _ (by simp) hfound⟩⟩

theorem GroupMade.on_iff (hmade : GroupMade lib ctx new list lib') (htended : lib.Tended) {grp : Nat} :
    lib'.On stat grp ↔ lib.On stat grp := by
  have hsame : ∀ s, lib.stats.lookup stat = some s → lib'.stat_group s = lib.stat_group s := by
    intro s hs
    by_cases hgrp : s.grp = 0
    · rw [stat_group, if_pos hgrp, stat_group, if_pos hgrp]
    · obtain ⟨grp, hgroup⟩ := Option.isSome_iff_exists.mp (htended.tied stat s hs hgrp)
      obtain ⟨hne, hfound⟩ := stat_group_eq_some.mp hgroup
      rw [hgroup]
      exact stat_group_eq_some.mpr ⟨hne, hmade.finds _ _ _ (by simp) hfound⟩
  unfold On
  rw [hmade.stats]
  constructor
  · rintro ⟨s, hs, hgroup⟩
    exact ⟨s, hs, by rwa [hsame s hs] at hgroup⟩
  · rintro ⟨s, hs, hgroup⟩
    exact ⟨s, hs, by rwa [hsame s hs]⟩

theorem GroupMade.listed (hmade : GroupMade lib ctx new list lib') (htended : lib.Tended)
    (hlisted : lib.StatsListed) : lib'.StatsListed := by
  intro grp g hg
  rw [hmade.groups, lookup_insert_eq_ite] at hg
  split at hg
  · next hgrp =>
    obtain rfl := Option.some.inj hg
    refine ⟨[], rfl, List.nodup_nil, fun stat => ?_⟩
    rw [hmade.on_iff htended, hgrp]
    refine ⟨fun h => absurd h List.not_mem_nil, ?_⟩
    rintro ⟨s, -, hgroup⟩
    exact absurd (htended.wf.found _ .GROUP _ (stat_group_eq_some.mp hgroup).2 (by simp)) (hmade.unused .GROUP)
  · obtain ⟨stats, hstats, hnodup, hmem⟩ := hlisted grp g hg
    exact ⟨stats, hstats, hnodup, fun stat => by rw [hmem stat, hmade.on_iff htended]⟩

/-- A group with other members is tended as before. -/
theorem Tended.regroup (htended : lib.Tended) (stat_list : GList) (hg : lib.groups.lookup grp = some g)
    (hlist : list.Pairwise (· < ·)) :
    Tended { lib with groups := lib.groups.insert grp { g with list, stat_list } } where
  wf := by
    refine htended.wf.congr rfl fun t r => ?_
    have hmem : grp ∈ lib.groups := Finmap.mem_of_lookup_eq_some hg
    cases t with
    | GROUP => exact mem_insert_iff hmem
    | _ => exact Iff.rfl
  sorted other g' hg' := by
    rw [lookup_insert_eq_ite] at hg'
    split at hg'
    · obtain rfl := Option.some.inj hg'
      exact hlist
    · exact htended.sorted other g' hg'
  homed other g' hg' := by
    rw [lookup_insert_eq_ite] at hg'
    split at hg'
    · obtain rfl := Option.some.inj hg'
      exact htended.homed grp g hg
    · exact htended.homed other g' hg'
  tied := htended.tied

theorem StatsListed.regroup (hlisted : lib.StatsListed) (hg : lib.groups.lookup grp = some g) :
    StatsListed { lib with groups := lib.groups.insert grp { g with list } } := by
  intro other g' hg'
  rw [lookup_insert_eq_ite] at hg'
  split at hg'
  · next heq =>
    obtain rfl := Option.some.inj hg'
    subst heq
    exact hlisted _ g hg
  · exact hlisted other g' hg'

end Groups

section Destroy

variable {context : Nat}

theorem mem_stats_of_invalidates (h : lib.Invalidates grp lib') : stat ∈ lib'.stats ↔ stat ∈ lib.stats := by
  rw [Finmap.mem_iff, Finmap.mem_iff, h stat]
  simp

/-- What the end of a group does to the rest. -/
structure Destroyed (lib : Library) (grp : Nat) (lib' : Library) : Prop where
  live : lib.Live .GROUP grp
  stats : lib.Invalidates grp lib'
  groups : ∀ other, lib'.groups.lookup other = if other = grp then none else lib.groups.lookup other
  contexts : ∀ r, r ∈ lib'.contexts ↔ r ∈ lib.contexts
  objects : lib'.objects = lib.objects
  map : lib'.opaque_map = (opaque_map_remove lib.opaque_map (lib.opaque_key grp)).2

theorem context_del_group_destroyed (hwf : lib.WellFormed) (hlisted : lib.StatsListed)
    (h : lib.context_del_group context grp = some lib') (hgrp : lib.Live .GROUP grp) :
    Destroyed lib grp lib' := by
  unfold context_del_group at h
  split at h
  · cases h
  · next record hrecord =>
    split at h
    · obtain ⟨g, hg⟩ := Finmap.mem_iff.mp hgrp
      generalize ({ record with group_list := record.group_list.erase grp } : Context) = record' at h
      have hlisted0 : StatsListed { lib with contexts := lib.contexts.insert context record' } := hlisted
      obtain ⟨lib1, hwalk, hwalked⟩ := hlisted0.walked hg
      have hkey : lib1.opaque_key grp = lib.opaque_key grp := by rw [opaque_key, hwalked.map, opaque_key]
      simp only [del_group, hwalk, hkey, ne_eq, (hwf.keyed .GROUP grp hgrp).nonzero, not_false_eq_true,
        if_true, Option.some.injEq] at h
      subst h
      refine ⟨hgrp, hwalked.stats, fun other => ?_, fun r => ?_, hwalked.objects, by rw [hwalked.map]⟩
      · show (lib1.groups.erase grp).lookup other = _
        rw [lookup_erase_eq_ite]
        split
        · rfl
        · next hne => exact hwalked.others other hne
      · show r ∈ lib1.contexts ↔ r ∈ lib.contexts
        rw [hwalked.contexts]
        exact mem_insert_iff (Finmap.mem_of_lookup_eq_some hrecord)
    · cases h

theorem Destroyed.live_iff (hdone : Destroyed lib grp lib') (hwf : lib.WellFormed) (t : OpaqueType) (r : Nat) :
    lib'.Live t r ↔ lib.Live t r ∧ r ≠ grp := by
  refine hwf.live_removed hdone.live (fun r => ?_) (fun t r ht => ?_) t r
  · simp only [Live, Finmap.mem_iff, hdone.groups r]
    by_cases hr : r = grp <;> simp [hr]
  · cases t with
    | GROUP => exact absurd rfl ht
    | CONTEXT => exact hdone.contexts r
    | OBJECT => simp only [Live, hdone.objects]
    | STAT => exact mem_stats_of_invalidates hdone.stats
    | _ => exact Iff.rfl

theorem Destroyed.stat_group_iff (hdone : Destroyed lib grp lib') (hwf : lib.WellFormed) {other : Nat} :
    lib'.stat_group s = some other ↔ lib.stat_group s = some other ∧ other ≠ grp := by
  rw [stat_group_eq_some, stat_group_eq_some, opaque_map_lookup_group,
    hwf.lookup_type_removed hdone.live hdone.map (by simp), and_assoc]
  rfl

theorem Destroyed.on_iff (hdone : Destroyed lib grp lib') (hwf : lib.WellFormed) {other : Nat} :
    lib'.On stat other ↔ lib.On stat other ∧ other ≠ grp := by
  unfold On
  rw [hdone.stats stat]
  constructor
  · rintro ⟨s', hs', hgroup⟩
    obtain ⟨s, hs, rfl⟩ := Option.map_eq_some_iff.mp hs'
    split at hgroup
    · simp at hgroup
    · obtain ⟨hold, hne⟩ := (hdone.stat_group_iff hwf).mp hgroup
      exact ⟨⟨s, hs, hold⟩, hne⟩
  · rintro ⟨⟨s, hs, hold⟩, hne⟩
    have hother : lib.stat_group s ≠ some grp := by
      rw [hold]
      exact fun h => hne (Option.some.inj h)
    exact ⟨s, by simp [hs, hother], (hdone.stat_group_iff hwf).mpr ⟨hold, hne⟩⟩

theorem Destroyed.tended (hdone : Destroyed lib grp lib') (htended : lib.Tended) : lib'.Tended where
  wf := htended.wf.removed hdone.live hdone.map (hdone.live_iff htended.wf)
  sorted other g hg := by
    rw [hdone.groups other] at hg
    split at hg
    · cases hg
    · exact htended.sorted other g hg
  homed other g hg := by
    rw [hdone.groups other] at hg
    split at hg
    · cases hg
    · obtain ⟨r, hr, heq⟩ := htended.homed other g hg
      have hlive : lib.Live .CONTEXT r := hr
      refine ⟨r, (hdone.contexts r).mpr hr, ?_⟩
      rw [heq, htended.wf.key_removed hdone.live hdone.map hlive (by simp)]
  tied stat s' hs' hgrp := by
    rw [hdone.stats stat] at hs'
    obtain ⟨s, hs, rfl⟩ := Option.map_eq_some_iff.mp hs'
    split at hgrp
    · exact absurd rfl hgrp
    · next hother =>
      rw [if_neg hother]
      obtain ⟨other, hgroup⟩ := Option.isSome_iff_exists.mp (htended.tied stat s hs hgrp)
      have hne : other ≠ grp := fun h => hother (h ▸ hgroup)
      exact Option.isSome_iff_exists.mpr ⟨other, (hdone.stat_group_iff htended.wf).mpr ⟨hgroup, hne⟩⟩

theorem Destroyed.listed (hdone : Destroyed lib grp lib') (hwf : lib.WellFormed)
    (hlisted : lib.StatsListed) : lib'.StatsListed := by
  intro other g hg
  rw [hdone.groups other] at hg
  split at hg
  · cases hg
  · next hne =>
    obtain ⟨stats, hstats, hnodup, hmem⟩ := hlisted other g hg
    refine ⟨stats, hstats, hnodup, fun stat => ?_⟩
    rw [hmem stat, hdone.on_iff hwf]
    exact ⟨fun h => ⟨h, hne⟩, And.left⟩

end Destroy

section Drop

/-- What the end of a statistic does to the rest. -/
structure Dropped (lib : Library) (stat : Nat) (lib' : Library) : Prop where
  live : lib.Live .STAT stat
  stats : ∀ other, lib'.stats.lookup other = if other = stat then none else lib.stats.lookup other
  groups : lib'.groups = lib.groups
  contexts : ∀ r, r ∈ lib'.contexts ↔ r ∈ lib.contexts
  objects : lib'.objects = lib.objects
  map : lib'.opaque_map = (opaque_map_remove lib.opaque_map (lib.opaque_key stat)).2

theorem context_del_statistic_dropped (hwf : lib.WellFormed)
    (h : lib.context_del_statistic ctx stat = some lib') : Dropped lib stat lib' := by
  unfold context_del_statistic at h
  split at h
  · cases h
  · next record hrecord =>
    split at h
    · unfold del_stat at h
      cases hs : lib.stats.lookup stat with
      | none => simp [hs] at h
      | some s =>
        have hlive : lib.Live .STAT stat := Finmap.mem_of_lookup_eq_some hs
        have hkey : (lib.opaque_map.refs stat).key ≠ 0 := (hwf.keyed .STAT stat hlive).nonzero
        simp only [hs, opaque_key, ne_eq, hkey, not_false_eq_true, if_true, Option.some.injEq] at h
        subst h
        refine ⟨hlive, fun other => lookup_erase_eq_ite _ _ _, rfl, fun r => ?_, rfl, rfl⟩
        exact mem_insert_iff (Finmap.mem_of_lookup_eq_some hrecord)
    · cases h

theorem Dropped.live_iff (hdone : Dropped lib stat lib') (hwf : lib.WellFormed) (t : OpaqueType) (r : Nat) :
    lib'.Live t r ↔ lib.Live t r ∧ r ≠ stat := by
  refine hwf.live_removed hdone.live (fun r => ?_) (fun t r ht => ?_) t r
  · simp only [Live, Finmap.mem_iff, hdone.stats r]
    by_cases hr : r = stat <;> simp [hr]
  · cases t with
    | STAT => exact absurd rfl ht
    | CONTEXT => exact hdone.contexts r
    | OBJECT => simp only [Live, hdone.objects]
    | GROUP => simp only [Live, hdone.groups]
    | _ => exact Iff.rfl

theorem Dropped.stat_group_eq (hdone : Dropped lib stat lib') (hwf : lib.WellFormed) :
    lib'.stat_group s = lib.stat_group s := by
  ext other
  rw [stat_group_eq_some, stat_group_eq_some, opaque_map_lookup_group,
    hwf.lookup_type_removed hdone.live hdone.map (by simp)]
  constructor
  · exact fun h => ⟨h.1, h.2.1⟩
  · rintro ⟨hgrp, hfound⟩
    refine ⟨hgrp, hfound, ?_⟩
    rintro rfl
    cases hwf.type_unique (hwf.found _ .GROUP _ hfound (by simp)) hdone.live

theorem Dropped.on_iff (hdone : Dropped lib stat lib') (hwf : lib.WellFormed) {other : Nat} :
    lib'.On other grp ↔ lib.On other grp ∧ other ≠ stat := by
  unfold On
  rw [hdone.stats other]
  by_cases hother : other = stat
  · simp [hother]
  · simp only [hother, if_false, ne_eq, not_false_eq_true, and_true, hdone.stat_group_eq hwf]

theorem Dropped.tended (hdone : Dropped lib stat lib') (htended : lib.Tended) : lib'.Tended where
  wf := htended.wf.removed hdone.live hdone.map (hdone.live_iff htended.wf)
  sorted := by
    rw [hdone.groups]
    exact htended.sorted
  homed grp g hg := by
    rw [hdone.groups] at hg
    obtain ⟨r, hr, heq⟩ := htended.homed grp g hg
    have hlive : lib.Live .CONTEXT r := hr
    refine ⟨r, (hdone.contexts r).mpr hr, ?_⟩
    rw [heq, htended.wf.key_removed hdone.live hdone.map hlive (by simp)]
  tied other s hs hgrp := by
    rw [hdone.stats other] at hs
    split at hs
    · cases hs
    · rw [hdone.stat_group_eq htended.wf]
      exact htended.tied other s hs hgrp

/-- A statistic that is on no group can go. -/
theorem Dropped.listed_of_not_on (hdone : Dropped lib stat lib') (hwf : lib.WellFormed)
    (hlisted : lib.StatsListed) (hnone : ∀ grp, ¬ lib.On stat grp) : lib'.StatsListed := by
  intro grp g hg
  rw [hdone.groups] at hg
  obtain ⟨stats, hstats, hnodup, hmem⟩ := hlisted grp g hg
  refine ⟨stats, hstats, hnodup, fun other => ?_⟩
  rw [hmem other, hdone.on_iff hwf]
  refine ⟨fun hon => ⟨hon, ?_⟩, And.left⟩
  rintro rfl
  exact hnone grp hon

theorem On.unique {grp grp' : Nat} (h : lib.On stat grp) (h' : lib.On stat grp') : grp = grp' := by
  obtain ⟨s, hs, hgroup⟩ := h
  obtain ⟨s', hs', hgroup'⟩ := h'
  rw [hs] at hs'
  obtain rfl := Option.some.inj hs'
  rw [hgroup] at hgroup'
  exact Option.some.inj hgroup'

/-- `group_del_statistic` takes the statistic out of its group's list and frees it. -/
theorem group_del_statistic_spec {faults : List String} (htended : lib.Tended) (hlisted : lib.StatsListed)
    (hon : lib.On stat grp) (h : lib.group_del_statistic grp stat = some (faults, lib')) :
    lib'.Tended ∧ lib'.StatsListed ∧ faults = [] ∧
      (∀ other, lib'.stats.lookup other = if other = stat then none else lib.stats.lookup other) := by
  unfold group_del_statistic at h
  split at h
  · cases h
  · next g hg =>
    obtain ⟨stats, hstats, hnodup, hmem⟩ := hlisted grp g hg
    obtain ⟨ctx, hctx, hkey⟩ := htended.homed grp g hg
    have hfound : opaque_map_lookup_type lib.opaque_map g.context_key .CONTEXT = some ctx := by
      rw [hkey]
      exact (htended.wf.keyed .CONTEXT ctx hctx).found
    have hin : stat ∈ stats := (hmem stat).mpr hon
    simp only [hstats, g_list_delete_link, hin, if_true, opaque_map_lookup_context, hfound] at h
    split at h
    · cases h
    · next lib2 hdel =>
      obtain ⟨rfl, rfl⟩ := Prod.mk.inj (Option.some.inj h)
      have htended1 := htended.regroup (.nodes (stats.erase stat)) hg (htended.sorted grp g hg)
      have hdone := context_del_statistic_dropped htended1.wf hdel
      refine ⟨hdone.tended htended1, fun other g' hg' => ?_, rfl, hdone.stats⟩
      rw [hdone.groups, lookup_insert_eq_ite] at hg'
      have hon' : ∀ x, lib2.On x other ↔ lib.On x other ∧ x ≠ stat := fun x => hdone.on_iff htended1.wf
      split at hg'
      · next heq =>
        obtain rfl := Option.some.inj hg'
        refine ⟨stats.erase stat, rfl, hnodup.erase stat, fun x => ?_⟩
        rw [hnodup.mem_erase_iff, hmem x, hon' x, heq, and_comm]
      · next hne =>
        obtain ⟨stats', hstats', hnodup', hmem'⟩ := hlisted other g' hg'
        refine ⟨stats', hstats', hnodup', fun x => ?_⟩
        rw [hmem' x, hon' x]
        refine ⟨fun hx => ⟨hx, ?_⟩, And.left⟩
        rintro rfl
        exact hne (hx.unique hon)

end Drop

section Create

variable {stats : List Nat}

/-- A new statistic in front of a group's list. -/
structure StatMade (lib : Library) (grp : Nat) (g : Group) (stats : List Nat) (new : Alloc) (s : Stat)
    (lib' : Library) : Prop where
  wf : lib'.WellFormed
  unused : lib.Unused new.address
  groups : lib'.groups = lib.groups.insert grp { g with stat_list := .nodes (new.address :: stats) }
  stats : lib'.stats = lib.stats.insert new.address s
  refs : ∀ record, record ≠ new.address → lib'.opaque_map.refs record = lib.opaque_map.refs record
  finds : ∀ k t record, t ∈ [.CONTEXT, .GROUP, .OBJECT, .STAT] →
    opaque_map_lookup_type lib.opaque_map k t = some record →
    opaque_map_lookup_type lib'.opaque_map k t = some record
  contexts : ∀ r, r ∈ lib'.contexts ↔ r ∈ lib.contexts

theorem group_new_statistic_made (hwf : lib.WellFormed) (hunused : lib.Unused new.address)
    (hg : lib.groups.lookup grp = some g) (hstats : g.stat_list = .nodes stats)
    (h : lib.group_new_statistic grp new = some (.ok lib')) : ∃ s, StatMade lib grp g stats new s lib' := by
  simp only [group_new_statistic, hg, hstats, g_list_prepend] at h
  split at h
  · cases h
  · next ctx hctx =>
    split at h
    · next lib1 list hnew hlist =>
      obtain rfl := Option.some.inj hlist
      unfold context_new_statistic new_stat at hnew
      split at hnew
      · next lib2 record hmade hrecord =>
        split at hmade
        · next key map hinsert =>
          obtain rfl := Option.some.inj hmade
          obtain ⟨-, -, hrefs, -⟩ := lookup_inserted hinsert
          obtain ⟨hmap, hcontexts, hgroups, hstats', hobjects⟩ : lib'.opaque_map = map ∧
              lib'.contexts = lib.contexts.insert ctx { record with stat_list := new.address :: record.stat_list } ∧
              lib'.groups = lib.groups.insert grp { g with stat_list := .nodes (new.address :: stats) } ∧
              lib'.stats = (lib.stats.insert new.address {}).insert new.address
                { context_key := (map.refs ctx).key } ∧ lib'.objects = lib.objects := by
            obtain rfl := Option.some.inj hnew
            obtain rfl := Except.ok.inj (Option.some.inj h)
            exact ⟨rfl, rfl, rfl, rfl, rfl⟩
          rw [Finmap.insert_insert] at hstats'
          have hcontext : ∀ r, r ∈ lib'.contexts ↔ r ∈ lib.contexts := fun r => by
            rw [hcontexts]
            exact mem_insert_iff (Finmap.mem_of_lookup_eq_some hrecord)
          refine ⟨_, ?_, hunused, hgroups, hstats', fun r hr => ?_, fun k t r ht hr => ?_, hcontext⟩
          · refine hwf.inserted (hmap ▸ hinsert) hunused fun t r => ?_
            cases t with
            | CONTEXT => simpa [Live] using hcontext r
            | GROUP =>
              simp only [Live, hgroups, mem_insert_iff (Finmap.mem_of_lookup_eq_some hg), reduceCtorEq,
                false_and, or_false]
            | STAT => simp [Live, hstats', Finmap.mem_insert, or_comm]
            | _ => simp [Live, hobjects]
          · rw [hmap, hrefs, Function.update_of_ne hr]
          · exact hmap ▸ hwf.lookup_type_inserted hunused hinsert ht hr
        · cases hmade
      · cases hnew
    · cases h

/-- The new statistic may be written to. -/
theorem StatMade.init (hmade : StatMade lib grp g stats new s lib1) (s' : Stat) :
    StatMade lib grp g stats new s' { lib1 with stats := lib1.stats.insert new.address s' } := by
  refine ⟨?_, hmade.unused, hmade.groups, ?_, hmade.refs, hmade.finds, hmade.contexts⟩
  · refine hmade.wf.congr rfl fun t r => ?_
    cases t with
    | STAT =>
      have hmem : new.address ∈ lib1.stats := by
        rw [hmade.stats, Finmap.mem_insert]
        exact Or.inl rfl
      exact mem_insert_iff hmem
    | _ => exact Iff.rfl
  · show lib1.stats.insert new.address s' = _
    rw [hmade.stats, Finmap.insert_insert]

variable (hmade : StatMade lib grp g stats new s lib') (htended : lib.Tended) (hlisted : lib.StatsListed)

include hmade htended

theorem StatMade.stat_group_eq {stat : Nat} {t : Stat} (ht : lib.stats.lookup stat = some t) :
    lib'.stat_group t = lib.stat_group t := by
  by_cases hgrp : t.grp = 0
  · rw [stat_group, if_pos hgrp, stat_group, if_pos hgrp]
  · obtain ⟨other, hgroup⟩ := Option.isSome_iff_exists.mp (htended.tied stat t ht hgrp)
    obtain ⟨hne, hfound⟩ := stat_group_eq_some.mp hgroup
    rw [hgroup]
    exact stat_group_eq_some.mpr ⟨hne, hmade.finds _ _ _ (by simp) hfound⟩

theorem StatMade.on_iff {other : Nat} : lib'.On stat other ↔
    if stat = new.address then lib'.stat_group s = some other else lib.On stat other := by
  unfold On
  rw [hmade.stats, lookup_insert_eq_ite]
  split
  · simp
  · constructor
    · rintro ⟨t, ht, hgroup⟩
      exact ⟨t, ht, by rwa [hmade.stat_group_eq htended ht] at hgroup⟩
    · rintro ⟨t, ht, hgroup⟩
      exact ⟨t, ht, by rwa [hmade.stat_group_eq htended ht]⟩

theorem StatMade.tended (hg : lib.groups.lookup grp = some g)
    (hs : s.grp ≠ 0 → (lib'.stat_group s).isSome) : lib'.Tended where
  wf := hmade.wf
  sorted other g' hg' := by
    rw [hmade.groups, lookup_insert_eq_ite] at hg'
    split at hg'
    · obtain rfl := Option.some.inj hg'
      exact htended.sorted grp g hg
    · exact htended.sorted other g' hg'
  homed other g' hg' := by
    have hhome : ∀ key, (∃ r, r ∈ lib.contexts ∧ key = lib.opaque_key r) →
        ∃ r, r ∈ lib'.contexts ∧ key = lib'.opaque_key r := by
      rintro key ⟨r, hr, rfl⟩
      have hne : r ≠ new.address := by
        rintro rfl
        exact hmade.unused .CONTEXT hr
      exact ⟨r, (hmade.contexts r).mpr hr, (congrArg OpaqueRef.key (hmade.refs r hne)).symm⟩
    rw [hmade.groups, lookup_insert_eq_ite] at hg'
    split at hg'
    · obtain rfl := Option.some.inj hg'
      exact hhome _ (htended.homed grp g hg)
    · exact hhome _ (htended.homed other g' hg')
  tied stat t ht hgrp := by
    rw [hmade.stats, lookup_insert_eq_ite] at ht
    split at ht
    · obtain rfl := Option.some.inj ht
      exact hs hgrp
    · rw [hmade.stat_group_eq htended ht]
      exact htended.tied stat t ht hgrp

include hlisted in
theorem StatMade.listed (hg : lib.groups.lookup grp = some g) (hstats : g.stat_list = .nodes stats)
    (hs : lib'.stat_group s = some grp) : lib'.StatsListed := by
  have hnew : ∀ other, ¬ lib.On new.address other := by
    rintro other ⟨t, ht, -⟩
    exact hmade.unused .STAT (Finmap.mem_of_lookup_eq_some ht)
  intro other g' hg'
  rw [hmade.groups, lookup_insert_eq_ite] at hg'
  split at hg'
  · next heq =>
    obtain rfl := Option.some.inj hg'
    obtain ⟨stats', hstats', hnodup, hmem⟩ := hlisted grp g hg
    rw [hstats] at hstats'
    obtain rfl := GList.nodes.inj hstats'
    refine ⟨new.address :: stats, rfl, List.nodup_cons.mpr ⟨fun h => hnew grp ((hmem _).mp h), hnodup⟩, ?_⟩
    intro stat
    rw [List.mem_cons, hmem stat, hmade.on_iff htended, heq]
    by_cases hstat : stat = new.address
    · simp [hstat, hs]
    · simp [hstat]
  · next hne =>
    obtain ⟨stats', hstats', hnodup, hmem⟩ := hlisted other g' hg'
    refine ⟨stats', hstats', hnodup, fun stat => ?_⟩
    rw [hmem stat, hmade.on_iff htended]
    by_cases hstat : stat = new.address
    · rw [if_pos hstat, hstat, hs]
      exact ⟨fun h => absurd h (hnew other), fun h => absurd (Option.some.inj h).symm hne⟩
    · rw [if_neg hstat]

end Create

end Library

end pwrapi
