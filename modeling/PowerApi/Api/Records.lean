import PowerApi.Api.HandleTable
import PowerApi.Api.Library

open HashTable

namespace pwrapi

namespace Library

/-- An allocated record of one of the four modelled types. -/
def Live (lib : Library) : OpaqueType → Nat → Prop
  | .CONTEXT, record => record ∈ lib.contexts
  | .GROUP, record => record ∈ lib.groups
  | .OBJECT, record => record ∈ lib.objects
  | .STAT, record => record ∈ lib.stats
  | _, _ => False

instance (lib : Library) : (type : OpaqueType) → (record : Nat) → Decidable (lib.Live type record)
  | .CONTEXT, record => inferInstanceAs (Decidable (record ∈ lib.contexts))
  | .GROUP, record => inferInstanceAs (Decidable (record ∈ lib.groups))
  | .OBJECT, record => inferInstanceAs (Decidable (record ∈ lib.objects))
  | .STAT, record => inferInstanceAs (Decidable (record ∈ lib.stats))
  | .INVALID, _ | .STATUS, _ | .HINT, _ => .isFalse id

/-- The record has a key, under which the table finds it. -/
structure Keyed (lib : Library) (type : OpaqueType) (record : Nat) : Prop where
  type_eq : (lib.opaque_map.refs record).type = type
  nonzero : lib.opaque_key record ≠ 0
  range : (lib.opaque_key record).toNat < 2 ^ 32
  lookup : lib.opaque_map.table.lookup (lib.opaque_key record) = some record

/-- The table leads to allocated records only, and to all of them. -/
structure WellFormed (lib : Library) : Prop where
  found : ∀ key type record, opaque_map_lookup_type lib.opaque_map key type = some record →
    type ∈ [.CONTEXT, .GROUP, .OBJECT, .STAT] → lib.Live type record
  keyed : ∀ type record, lib.Live type record → lib.Keyed type record

/-- The address is that of no allocated record. -/
def Unused (lib : Library) (record : Nat) : Prop := ∀ type, ¬ lib.Live type record

theorem unused_iff {lib : Library} {record : Nat} : lib.Unused record ↔
    record ∉ lib.contexts ∧ record ∉ lib.groups ∧ record ∉ lib.objects ∧ record ∉ lib.stats := by
  constructor
  · intro h
    exact ⟨h .CONTEXT, h .GROUP, h .OBJECT, h .STAT⟩
  · rintro ⟨hcontext, hgroup, hobject, hstat⟩ type
    cases type with
    | CONTEXT => exact hcontext
    | GROUP => exact hgroup
    | OBJECT => exact hobject
    | STAT => exact hstat
    | _ => exact id

instance (lib : Library) (record : Nat) : Decidable (lib.Unused record) :=
  decidable_of_iff _ unused_iff.symm

variable {lib lib' : Library} {type : OpaqueType} {record : Nat} {key : UInt64}

theorem opaque_map_lookup_type_iff {map : OpaqueMap Nat} :
    opaque_map_lookup_type map key type = some record ↔
      map.table.lookup key = some record ∧ (map.refs record).type = type := by
  unfold opaque_map_lookup_type opaque_map_lookup
  cases map.table.lookup key with
  | none => simp
  | some found =>
    simp only [ne_eq, ite_not, Option.ite_none_right_eq_some, Option.some.injEq]
    constructor
    · rintro ⟨htype, rfl⟩
      exact ⟨rfl, htype⟩
    · rintro ⟨rfl, htype⟩
      exact ⟨htype, rfl⟩

theorem Keyed.found (hkeyed : lib.Keyed type record) :
    opaque_map_lookup_type lib.opaque_map (lib.opaque_key record) type = some record :=
  opaque_map_lookup_type_iff.mpr ⟨hkeyed.lookup, hkeyed.type_eq⟩

/-- No address is that of two records of different types. -/
theorem WellFormed.type_unique (hwf : lib.WellFormed) {other : OpaqueType}
    (h : lib.Live type record) (hother : lib.Live other record) : type = other :=
  (hwf.keyed type record h).type_eq.symm.trans (hwf.keyed other record hother).type_eq

/-- Only the maps of allocated addresses matter. -/
theorem WellFormed.congr (hwf : lib.WellFormed) (hmap : lib'.opaque_map = lib.opaque_map)
    (hlive : ∀ type record, lib'.Live type record ↔ lib.Live type record) : lib'.WellFormed where
  found key type record hfound htype := by
    rw [hmap] at hfound
    exact (hlive _ _).mpr (hwf.found key type record hfound htype)
  keyed type record h := by
    obtain ⟨htype, hnonzero, hrange, hlookup⟩ := hwf.keyed type record ((hlive _ _).mp h)
    have hkey : lib'.opaque_key record = lib.opaque_key record := by rw [opaque_key, hmap, opaque_key]
    exact ⟨by rw [hmap, htype], by rwa [hkey], by rwa [hkey], by rw [hkey, hmap, hlookup]⟩

/-- The table after an insertion leads to the new record, and elsewhere where it did before. -/
theorem lookup_inserted {map map' : OpaqueMap Nat} {draws : List UInt32}
    (h : opaque_map_insert type record draws map = some (key, [], map')) :
    key ≠ 0 ∧ key.toNat < 2 ^ 32 ∧ map'.refs = Function.update map.refs record { type, key } ∧
      map'.table.lookup key = some record ∧
      (∀ k other, map'.table.lookup k = some other → other = record ∨ map.table.lookup k = some other) ∧
      ∀ k other, map.table.lookup k = some other → map'.table.lookup k = some other := by
  obtain ⟨hkey, hrange, hfree, rfl⟩ := opaque_map_insert_eq h
  refine ⟨hkey, hrange, rfl, by simp only [Finmap.lookup_insert], ?_, ?_⟩
  · intro k other hlookup
    simp only [lookup_insert_eq_ite] at hlookup
    split at hlookup
    · exact Or.inl (Option.some.inj hlookup).symm
    · split at hlookup
      · rw [lookup_insert_eq_ite] at hlookup
        split at hlookup
        · exact Or.inl (Option.some.inj hlookup).symm
        · exact Or.inr hlookup
      · exact Or.inr hlookup
  · intro k other hlookup
    have hne : k ≠ key := by
      rintro rfl
      rw [hfree] at hlookup
      cases hlookup
    simp only [lookup_insert_eq_ite, if_neg hne]
    split
    · next hzero =>
      have hk : k ≠ 0 := by
        rintro rfl
        rw [hzero.2] at hlookup
        cases hlookup
      rw [lookup_insert_eq_ite, if_neg hk, hlookup]
    · exact hlookup

/-- A new record with a key of its own keeps the table and the records in step. -/
theorem WellFormed.inserted (hwf : lib.WellFormed) {draws : List UInt32}
    (h : opaque_map_insert type record draws lib.opaque_map = some (key, [], lib'.opaque_map))
    (hunused : lib.Unused record)
    (hlive : ∀ t r, lib'.Live t r ↔ lib.Live t r ∨ (t = type ∧ r = record)) : lib'.WellFormed := by
  obtain ⟨hkey, hrange, hrefs, hlookup, hback, hforth⟩ := lookup_inserted h
  constructor
  · intro k t r hfound ht
    obtain ⟨hk, htype⟩ := opaque_map_lookup_type_iff.mp hfound
    rw [hlive]
    by_cases hr : r = record
    · rw [hr, hrefs, Function.update_self] at htype
      exact Or.inr ⟨htype.symm, hr⟩
    · rw [hrefs, Function.update_of_ne hr] at htype
      have hold := (hback k r hk).resolve_left hr
      exact Or.inl (hwf.found k t r (opaque_map_lookup_type_iff.mpr ⟨hold, htype⟩) ht)
  · intro t r hr
    rcases (hlive t r).mp hr with hold | ⟨rfl, rfl⟩
    · have hne : r ≠ record := by
        rintro rfl
        exact hunused t hold
      obtain ⟨htype, hnonzero, hlt, hfound⟩ := hwf.keyed t r hold
      unfold opaque_key at hnonzero hlt hfound
      constructor
      · rw [hrefs, Function.update_of_ne hne, htype]
      · rw [opaque_key, hrefs, Function.update_of_ne hne]
        exact hnonzero
      · rw [opaque_key, hrefs, Function.update_of_ne hne]
        exact hlt
      · rw [opaque_key, hrefs, Function.update_of_ne hne]
        exact hforth _ r hfound
    · constructor
      · rw [hrefs, Function.update_self]
      · rw [opaque_key, hrefs, Function.update_self]
        exact hkey
      · rw [opaque_key, hrefs, Function.update_self]
        exact hrange
      · rw [opaque_key, hrefs, Function.update_self]
        exact hlookup

/-- What was found before an insertion is found afterwards. -/
theorem WellFormed.lookup_type_inserted (hwf : lib.WellFormed) (hunused : lib.Unused record) {draws : List UInt32}
    {map : OpaqueMap Nat} (h : opaque_map_insert type record draws lib.opaque_map = some (key, [], map))
    {k : UInt64} {t : OpaqueType} {other : Nat} (ht : t ∈ [.CONTEXT, .GROUP, .OBJECT, .STAT])
    (hfound : opaque_map_lookup_type lib.opaque_map k t = some other) :
    opaque_map_lookup_type map k t = some other := by
  obtain ⟨-, -, hrefs, -, -, hforth⟩ := lookup_inserted h
  obtain ⟨hk, htype⟩ := opaque_map_lookup_type_iff.mp hfound
  have hne : other ≠ record := by
    rintro rfl
    exact hunused t (hwf.found k t other hfound ht)
  exact opaque_map_lookup_type_iff.mpr ⟨hforth k other hk, by rw [hrefs, Function.update_of_ne hne, htype]⟩

section Remove

variable {map : OpaqueMap Nat}

/-- The map without the key of an allocated record. -/
theorem WellFormed.map_removed (hwf : lib.WellFormed) (hrecord : lib.Live type record)
    (hmap : map = (opaque_map_remove lib.opaque_map (lib.opaque_key record)).2) :
    map.table = lib.opaque_map.table.erase (lib.opaque_key record) ∧
      map.refs = Function.update lib.opaque_map.refs record { type := .INVALID, key := 0 } := by
  have hlookup := (hwf.keyed type record hrecord).lookup
  subst hmap
  simp only [opaque_map_remove, opaque_map_lookup, hlookup, and_self]

/-- Without a record's key, the other records are found as before, and the record is not. -/
theorem WellFormed.lookup_type_removed (hwf : lib.WellFormed) (hrecord : lib.Live type record)
    (hmap : map = (opaque_map_remove lib.opaque_map (lib.opaque_key record)).2)
    {k : UInt64} {t : OpaqueType} {other : Nat} (ht : t ∈ [.CONTEXT, .GROUP, .OBJECT, .STAT]) :
    opaque_map_lookup_type map k t = some other ↔
      opaque_map_lookup_type lib.opaque_map k t = some other ∧ other ≠ record := by
  obtain ⟨htable, hrefs⟩ := hwf.map_removed hrecord hmap
  rw [opaque_map_lookup_type_iff, opaque_map_lookup_type_iff, htable, hrefs, lookup_erase_eq_ite]
  by_cases hother : other = record
  · subst hother
    simp only [Function.update_self, ne_eq, not_true_eq_false, and_false, iff_false, not_and]
    rintro - rfl
    simp at ht
  · rw [Function.update_of_ne hother]
    by_cases hk : k = lib.opaque_key record
    · have hne : lib.opaque_map.table.lookup k ≠ some other := by
        rw [hk, (hwf.keyed type record hrecord).lookup]
        exact fun h => hother (Option.some.inj h).symm
      simp [hk, hne]
    · simp [hk, hother]

/-- A record that goes is one of its own type only. -/
theorem WellFormed.live_removed (hwf : lib.WellFormed) (hrecord : lib.Live type record)
    (hown : ∀ r, lib'.Live type r ↔ lib.Live type r ∧ r ≠ record)
    (hothers : ∀ t r, t ≠ type → (lib'.Live t r ↔ lib.Live t r)) (t : OpaqueType) (r : Nat) :
    lib'.Live t r ↔ lib.Live t r ∧ r ≠ record := by
  by_cases ht : t = type
  · subst ht
    exact hown r
  · rw [hothers t r ht]
    refine ⟨fun hlive => ⟨hlive, ?_⟩, And.left⟩
    rintro rfl
    exact ht (hwf.type_unique hlive hrecord)

/-- The records of other types keep their keys. -/
theorem WellFormed.key_removed (hwf : lib.WellFormed) (hrecord : lib.Live type record)
    (hmap : lib'.opaque_map = (opaque_map_remove lib.opaque_map (lib.opaque_key record)).2) {t : OpaqueType} {r : Nat}
    (hlive : lib.Live t r) (ht : t ≠ type) : lib'.opaque_key r = lib.opaque_key r := by
  have hne : r ≠ record := by
    rintro rfl
    exact ht (hwf.type_unique hlive hrecord)
  rw [opaque_key, opaque_key, (hwf.map_removed hrecord hmap).2, Function.update_of_ne hne]

/-- Taking a record's key out of the table as the record goes keeps them in step. -/
theorem WellFormed.removed (hwf : lib.WellFormed) (hrecord : lib.Live type record)
    (hmap : lib'.opaque_map = (opaque_map_remove lib.opaque_map (lib.opaque_key record)).2)
    (hlive : ∀ t r, lib'.Live t r ↔ lib.Live t r ∧ r ≠ record) : lib'.WellFormed := by
  constructor
  · intro k t r hfound ht
    obtain ⟨hold, hr⟩ := (hwf.lookup_type_removed hrecord hmap ht).mp hfound
    exact (hlive t r).mpr ⟨hwf.found k t r hold ht, hr⟩
  · intro t r hr
    obtain ⟨hold, hne⟩ := (hlive t r).mp hr
    obtain ⟨htype, hnonzero, hlt, hfound⟩ := hwf.keyed t r hold
    have hkeys : lib.opaque_key r ≠ lib.opaque_key record := by
      intro heq
      rw [heq, (hwf.keyed type record hrecord).lookup] at hfound
      exact hne (Option.some.inj hfound).symm
    obtain ⟨htable, hrefs⟩ := hwf.map_removed hrecord hmap
    have href : lib'.opaque_map.refs r = lib.opaque_map.refs r := by
      rw [hrefs, Function.update_of_ne hne]
    have hsame : lib'.opaque_key r = lib.opaque_key r := congrArg OpaqueRef.key href
    constructor
    · rw [href, htype]
    · rw [hsame]
      exact hnonzero
    · rw [hsame]
      exact hlt
    · rw [hsame, htable, lookup_erase_eq_ite, if_neg hkeys]
      exact hfound

end Remove

/-- A context with a node and its socket, and no groups. -/
def node_with_socket : Library where
  opaque_map := { table := ((∅ : HashTable UInt64 Nat).insert 5 1).insert 6 10 |>.insert 7 20,
                  refs := fun record => if record = 1 then { type := .CONTEXT, key := 5 }
                    else if record = 10 then { type := .OBJECT, key := 6 }
                    else if record = 20 then { type := .OBJECT, key := 7 } else {} }
  contexts := (∅ : HashTable Nat Context).insert 1 { entry_point := some 11 }
  objects := ((∅ : HashTable Nat Obj).insert 10 { type := .NODE, name := "node", gnode := some 11 }).insert 20
    { type := .SOCKET, name := "socket.0", gnode := some 21 }
  gnodes := ((∅ : HashTable Nat GNode).insert 11 { data := 10, parent := none, children := [21] }).insert 21
    { data := 20, parent := some 11, children := [] }

theorem node_with_socket_wellFormed : node_with_socket.WellFormed := by
  constructor
  · intro key type record hfound _
    obtain ⟨hlookup, htype⟩ := opaque_map_lookup_type_iff.mp hfound
    simp only [node_with_socket, lookup_insert_eq_ite, Finmap.lookup_empty] at hlookup htype
    have hrecord : record = 20 ∨ record = 10 ∨ record = 1 := by
      split at hlookup
      · exact Or.inl (Option.some.inj hlookup).symm
      · split at hlookup
        · exact Or.inr (Or.inl (Option.some.inj hlookup).symm)
        · split at hlookup
          · exact Or.inr (Or.inr (Option.some.inj hlookup).symm)
          · cases hlookup
    rcases hrecord with rfl | rfl | rfl
    · obtain rfl : OpaqueType.OBJECT = type := htype
      decide
    · obtain rfl : OpaqueType.OBJECT = type := htype
      decide
    · obtain rfl : OpaqueType.CONTEXT = type := htype
      decide
  · intro type record hlive
    have hrecord : (type = .CONTEXT ∧ record = 1) ∨ (type = .OBJECT ∧ (record = 20 ∨ record = 10)) := by
      cases type <;> simp_all [Live, node_with_socket, Finmap.mem_insert, Finmap.notMem_empty]
    rcases hrecord with ⟨rfl, rfl⟩ | ⟨rfl, rfl | rfl⟩
    · exact ⟨rfl, by decide, by decide, rfl⟩
    · exact ⟨rfl, by decide, by decide, rfl⟩
    · exact ⟨rfl, by decide, by decide, rfl⟩

end Library

end pwrapi
