import Mathlib.Data.Finset.Basic
import PowerApi.Api.Opaque
import PowerApi.Lib.Execution

open Execution HashTable

namespace pwrapi

section Insert

variable {α : Type} [DecidableEq α] {map map' : OpaqueMap α} {type : OpaqueType} {record : α}
  {draws : List UInt32} {key : UInt64}

/-- What an insertion does that draws exactly the given numbers: the record is entered
under the last one, and under zero if that was drawn before it was in the table. -/
theorem opaque_map_insert_eq (h : opaque_map_insert type record draws map = some (key, [], map')) :
    key ≠ 0 ∧ key.toNat < 2 ^ 32 ∧ map.table.lookup key = none ∧
      map' = { table := (if 0 ∈ draws ∧ map.table.lookup 0 = none then map.table.insert 0 record
                         else map.table).insert key record,
               refs := Function.update map.refs record { type, key } } := by
  induction draws generalizing map with
  | nil => cases h
  | cons draw draws ih =>
    unfold opaque_map_insert opaque_map_lookup at h
    cases hlookup : map.table.lookup draw.toUInt64 with
    | some other =>
      simp only [hlookup] at h
      obtain ⟨hkey, hlt, hfree, hmap'⟩ := ih h
      refine ⟨hkey, hlt, hfree, ?_⟩
      by_cases hdraw : draw = 0
      · subst hdraw
        have htaken : map.table.lookup 0 ≠ none := by
          rw [show (0 : UInt64) = (0 : UInt32).toUInt64 from rfl, hlookup]
          exact Option.some_ne_none other
        simpa [htaken] using hmap'
      · simpa [List.mem_cons, Ne.symm hdraw] using hmap'
    | none =>
      simp only [hlookup] at h
      by_cases hzero : draw.toUInt64 = 0
      · rw [if_pos hzero] at h
        obtain ⟨hkey, hlt, hfree, hmap'⟩ := ih h
        rw [hzero] at hlookup hfree hmap'
        rw [lookup_insert_eq_ite, if_neg hkey] at hfree
        have hdraw : draw = 0 := UInt32.toUInt64_inj.mp hzero
        refine ⟨hkey, hlt, hfree, ?_⟩
        simpa [hdraw, hlookup, lookup_insert_eq_ite] using hmap'
      · rw [if_neg hzero] at h
        obtain ⟨rfl, rfl, rfl⟩ : draw.toUInt64 = key ∧ draws = [] ∧ _ = map' := by simpa using h
        have hdraw : draw ≠ 0 := by
          rintro rfl
          exact hzero rfl
        refine ⟨hzero, ?_, hlookup, ?_⟩
        · rw [UInt32.toNat_toUInt64]
          exact draw.toNat_lt
        · simp [Ne.symm hdraw]

/-- The loop ends at the latest with the first number other than zero that is not a key yet. -/
theorem opaque_map_insert_isSome {draw : UInt32} (hmem : draw ∈ draws) (hdraw : draw ≠ 0)
    (hfree : map.table.lookup draw.toUInt64 = none) : (opaque_map_insert type record draws map).isSome := by
  have hkey : draw.toUInt64 ≠ 0 := fun hzero => hdraw (UInt32.toUInt64_inj.mp hzero)
  induction draws generalizing map with
  | nil => cases hmem
  | cons first draws ih =>
    unfold opaque_map_insert opaque_map_lookup
    rcases List.mem_cons.mp hmem with rfl | hmem
    · simp [hfree, hkey]
    · cases hlookup : map.table.lookup first.toUInt64 with
      | some other => simpa only [hlookup] using ih hmem hfree
      | none =>
        by_cases hfirst : first.toUInt64 = 0
        · simp only [hfirst, if_true] at hlookup ⊢
          simp only [hlookup]
          refine ih hmem ?_
          rw [lookup_insert_eq_ite, if_neg hkey, hfree]
        · simp [hlookup, hfirst]

end Insert

/-- A record that was inserted and not removed since, with the key it was given. -/
structure Live (α : Type) where
  record : α
  type : OpaqueType
  key : UInt64
  deriving DecidableEq

/-- The handle table with the live records, the last inserted first. -/
structure Handles (α : Type) where
  map : OpaqueMap α := {}
  live : List (Live α) := []

inductive OpaqueCall (α : Type) where
  | insert (type : OpaqueType) (record : α) (draws : List UInt32)
  | remove (key : UInt64)

namespace Handles

variable {α : Type} [DecidableEq α]

/-- A call, where an insertion draws exactly the given numbers. -/
def perform : OpaqueCall α → Handles α → Option (Handles α)
  | .insert type record draws, h =>
    match opaque_map_insert type record draws h.map with
    | some (key, [], map) => some { map, live := ⟨record, type, key⟩ :: h.live }
    | _ => none
  | .remove key, h =>
    some { map := (opaque_map_remove h.map key).2, live := h.live.filter fun l => l.key ≠ key }

/-- A record is only inserted when it is new: the callers allocate it right before,
and free it after its removal. -/
def Fresh (h : Handles α) : OpaqueCall α → Prop
  | .insert _ record _ => ∀ l ∈ h.live, l.record ≠ record
  | .remove _ => True

instance (h : Handles α) : (call : OpaqueCall α) → Decidable (h.Fresh call)
  | .insert _ record _ => inferInstanceAs (Decidable (∀ l ∈ h.live, l.record ≠ record))
  | .remove _ => .isTrue trivial

def HandleStep (h : Handles α) (call : OpaqueCall α) (h' : Handles α) : Prop :=
  h.Fresh call ∧ perform call h = some h'

/-- The table is the typed map of the live records. -/
structure Sound (h : Handles α) : Prop where
  distinct : (h.live.map Live.key).Nodup
  range : ∀ l ∈ h.live, l.key ≠ 0 ∧ l.key.toNat < 2 ^ 32
  lookup : ∀ key type record, opaque_map_lookup_type h.map key type = some record ↔
    ⟨record, type, key⟩ ∈ h.live

/-- No insertion draws zero. -/
def DrawsNoZero : OpaqueCall α → Prop
  | .insert _ _ draws => 0 ∉ draws
  | .remove _ => True

instance : (call : OpaqueCall α) → Decidable (DrawsNoZero call)
  | .insert _ _ draws => inferInstanceAs (Decidable (0 ∉ draws))
  | .remove _ => .isTrue trivial

/-- The table and the headers of the live records agree with the live records. -/
structure Tracked (h : Handles α) : Prop where
  distinct : (h.live.map Live.key).Nodup
  records : (h.live.map Live.record).Nodup
  range : ∀ l ∈ h.live, l.key ≠ 0 ∧ l.key.toNat < 2 ^ 32
  table : ∀ key record, h.map.table.lookup key = some record ↔
    ∃ l ∈ h.live, l.key = key ∧ l.record = record
  refs : ∀ l ∈ h.live, h.map.refs l.record = { type := l.type, key := l.key }

variable {h h' : Handles α} {call : OpaqueCall α}

omit [DecidableEq α] in
theorem Tracked.zero_free (ht : h.Tracked) : h.map.table.lookup 0 = none := by
  cases hzero : h.map.table.lookup 0 with
  | none => rfl
  | some record =>
    obtain ⟨l, hl, hkey, _⟩ := (ht.table 0 record).mp hzero
    exact absurd hkey (ht.range l hl).1

omit [DecidableEq α] in
theorem Tracked.sound (ht : h.Tracked) : h.Sound where
  distinct := ht.distinct
  range := ht.range
  lookup key type record := by
    unfold opaque_map_lookup_type opaque_map_lookup
    constructor
    · intro hfound
      cases hlookup : h.map.table.lookup key with
      | none => simp [hlookup] at hfound
      | some found =>
        simp only [hlookup] at hfound
        obtain ⟨l, hl, rfl, rfl⟩ := (ht.table key found).mp hlookup
        rw [ht.refs l hl] at hfound
        obtain ⟨rfl, rfl⟩ : l.type = type ∧ l.record = record := by
          by_cases htype : l.type = type
          · simpa [htype] using hfound
          · simp [htype] at hfound
        exact hl
    · intro hl
      have hlookup := (ht.table key record).mpr ⟨_, hl, rfl, rfl⟩
      have href := ht.refs _ hl
      simp only at href
      simp [hlookup, href]

theorem Tracked.insert (ht : h.Tracked) (type : OpaqueType) {record : α} {key : UInt64}
    (hnew : ∀ l ∈ h.live, l.record ≠ record) (hkey : key ≠ 0) (hlt : key.toNat < 2 ^ 32)
    (hfree : h.map.table.lookup key = none) :
    Tracked { map := { table := h.map.table.insert key record,
                       refs := Function.update h.map.refs record { type, key } },
              live := ⟨record, type, key⟩ :: h.live } where
  distinct := by
    refine List.nodup_cons.mpr ⟨?_, ht.distinct⟩
    intro hmem
    obtain ⟨l, hl, hlkey⟩ := List.mem_map.mp hmem
    have htaken := (ht.table key l.record).mpr ⟨l, hl, hlkey, rfl⟩
    rw [hfree] at htaken
    cases htaken
  records := by
    refine List.nodup_cons.mpr ⟨?_, ht.records⟩
    intro hmem
    obtain ⟨l, hl, hrecord⟩ := List.mem_map.mp hmem
    exact hnew l hl hrecord
  range l hl := by
    rcases List.mem_cons.mp hl with rfl | hl
    · exact ⟨hkey, hlt⟩
    · exact ht.range l hl
  table k r := by
    simp only [lookup_insert_eq_ite, List.exists_mem_cons_iff]
    split
    · next hk =>
      subst hk
      constructor
      · intro hr
        exact Or.inl ⟨rfl, Option.some.inj hr⟩
      · rintro (⟨_, rfl⟩ | hold)
        · rfl
        · rw [(ht.table k r).mpr hold] at hfree
          cases hfree
    · next hk =>
      rw [ht.table k r]
      exact ⟨Or.inr, fun hor => hor.resolve_left fun heq => hk heq.1.symm⟩
  refs l hl := by
    rcases List.mem_cons.mp hl with rfl | hl
    · simp
    · exact (Function.update_of_ne (hnew l hl) _ _).trans (ht.refs l hl)

theorem Tracked.remove (ht : h.Tracked) (key : UInt64) :
    Tracked { map := (opaque_map_remove h.map key).2, live := h.live.filter fun l => l.key ≠ key } := by
  have hmem : ∀ l, l ∈ h.live.filter (fun l => l.key ≠ key) ↔ l ∈ h.live ∧ l.key ≠ key := by
    simp [List.mem_filter]
  have hsub := List.filter_sublist (l := h.live) (p := fun l => decide (l.key ≠ key))
  refine ⟨ht.distinct.sublist (hsub.map _), ht.records.sublist (hsub.map _),
    fun l hl => ht.range l ((hmem l).mp hl).1, ?_, ?_⟩
  · intro k r
    simp only [hmem]
    unfold opaque_map_remove opaque_map_lookup
    cases hlookup : h.map.table.lookup key with
    | none =>
      simp only [ht.table k r]
      constructor
      · rintro ⟨l, hl, rfl, rfl⟩
        refine ⟨l, ⟨hl, ?_⟩, rfl, rfl⟩
        rintro rfl
        have htaken := (ht.table l.key l.record).mpr ⟨l, hl, rfl, rfl⟩
        rw [hlookup] at htaken
        cases htaken
      · rintro ⟨l, ⟨hl, _⟩, hkey, hrecord⟩
        exact ⟨l, hl, hkey, hrecord⟩
    | some removed =>
      simp only [lookup_erase_eq_ite]
      split
      · next hk =>
        subst hk
        constructor
        · intro habsurd
          cases habsurd
        · rintro ⟨l, ⟨_, hne⟩, hkey, _⟩
          exact absurd hkey hne
      · next hk =>
        rw [ht.table k r]
        constructor
        · rintro ⟨l, hl, rfl, rfl⟩
          exact ⟨l, ⟨hl, hk⟩, rfl, rfl⟩
        · rintro ⟨l, ⟨hl, _⟩, hkey, hrecord⟩
          exact ⟨l, hl, hkey, hrecord⟩
  · intro l hl
    obtain ⟨hl, hne⟩ := (hmem l).mp hl
    unfold opaque_map_remove opaque_map_lookup
    cases hlookup : h.map.table.lookup key with
    | none => exact ht.refs l hl
    | some removed =>
      obtain ⟨m, hm, hmkey, rfl⟩ := (ht.table key removed).mp hlookup
      have hrecord : l.record ≠ m.record := by
        intro heq
        have hlm : l = m := List.inj_on_of_nodup_map ht.records hl hm heq
        exact hne (hlm ▸ hmkey)
      simp only [Function.update_of_ne hrecord, ht.refs l hl]

/-- A call keeps the table sound exactly where it draws no zero. -/
theorem step_sound_iff (ht : h.Tracked) (hstep : HandleStep h call h') :
    (DrawsNoZero call → h'.Tracked) ∧ (h'.Sound ↔ DrawsNoZero call) := by
  obtain ⟨hnew, hperform⟩ := hstep
  cases call with
  | remove key =>
    obtain rfl := Option.some.inj hperform
    exact ⟨fun _ => ht.remove key, iff_of_true (ht.remove key).sound trivial⟩
  | insert type record draws =>
    simp only [perform] at hperform
    split at hperform
    · next key map' hinsert =>
      obtain rfl := Option.some.inj hperform
      obtain ⟨hkey, hlt, hfree, rfl⟩ := opaque_map_insert_eq hinsert
      by_cases hzero : 0 ∈ draws
      · refine ⟨fun hno => absurd hzero hno, iff_of_false ?_ (fun hno => hno hzero)⟩
        intro hsound
        have hfound : (⟨record, type, 0⟩ : Live α) ∈ (⟨record, type, key⟩ : Live α) :: h.live := by
          refine (hsound.lookup 0 type record).mp ?_
          simp [opaque_map_lookup_type, opaque_map_lookup, hzero, ht.zero_free, Ne.symm hkey]
        exact (hsound.range _ hfound).1 rfl
      · have htracked := ht.insert type hnew hkey hlt hfree
        simp only [hzero, false_and, if_false]
        exact ⟨fun _ => htracked, iff_of_true htracked.sound hzero⟩
    · cases hperform

omit [DecidableEq α] in
theorem empty_tracked : ({} : Handles α).Tracked where
  distinct := List.nodup_nil
  records := List.nodup_nil
  range := by simp
  table := by simp
  refs := by simp

/-- In every run of insertions and removals from an empty table, the table is the typed
map of the live records in every state, if and only if no insertion draws zero; and
keys below 2^32 are unpacked as they were packed. -/
theorem handle_table_sound_iff (run : List (OpaqueCall α × Handles α)) (hrun : EachStep HandleStep {} run) :
    ((∀ x ∈ run, x.2.Sound) ↔ EachStep (fun _ call _ => DrawsNoZero call) ({} : Handles α) run) ∧
    ∀ context_key data_key : UInt64, context_key.toNat < 2 ^ 32 → data_key.toNat < 2 ^ 32 →
      OPAQUE_GET_CONTEXT_KEY (OPAQUE_GENERATE context_key data_key) = context_key ∧
      OPAQUE_GET_DATA_KEY (OPAQUE_GENERATE context_key data_key) = data_key := by
  refine ⟨?_, fun context_key data_key hcontext hdata =>
    ⟨OPAQUE_GET_CONTEXT_KEY_generate hcontext hdata, OPAQUE_GET_DATA_KEY_generate hcontext hdata⟩⟩
  rw [forall_mem_iff_eachStep]
  exact hrun.iff_of_invariant empty_tracked (fun _ _ _ hstep ht => (step_sound_iff ht hstep).1)
    fun _ _ _ hstep ht => (step_sound_iff ht hstep).2

/-- Two groups are entered, the second after a draw of the first one's key, and the first is removed. -/
def two_groups : List (OpaqueCall Nat) :=
  [.insert .GROUP 1 [7], .insert .GROUP 2 [7, 9], .remove 7]

/-- A group is entered after a draw of zero. -/
def zero_drawn : List (OpaqueCall Nat) := [.insert .GROUP 1 [0, 7]]

theorem handle_steps_of_fresh {calls : List (OpaqueCall α)} {h : Handles α}
    (hfresh : EachStep (fun h call _ => h.Fresh call) h (run_of perform calls h)) :
    EachStep HandleStep h (run_of perform calls h) :=
  (hfresh.and (eachStep_run_of perform h calls)).imp fun _ _ _ h => h

theorem handle_table_sound_iff_two_groups :
    (run_of perform two_groups {}).length = 3 ∧ ∀ x ∈ run_of perform two_groups {}, x.2.Sound :=
  ⟨by decide, (handle_table_sound_iff _ (handle_steps_of_fresh (by decide))).1.mpr (by decide)⟩

/-- After a draw of zero the record is found under the key zero. -/
theorem handle_table_not_sound :
    ¬ ∀ run : List (OpaqueCall Nat × Handles Nat), EachStep HandleStep {} run → ∀ x ∈ run, x.2.Sound := by
  intro hclaim
  have hfound : ∃ x ∈ run_of perform zero_drawn {}, opaque_map_lookup_type x.2.map 0 .GROUP = some 1 := by decide
  obtain ⟨x, hx, hlookup⟩ := hfound
  have hsound := hclaim _ (handle_steps_of_fresh (by decide)) x hx
  exact (hsound.range _ ((hsound.lookup 0 .GROUP 1).mp hlookup)).1 rfl

end Handles

end pwrapi
