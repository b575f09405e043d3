import Mathlib.Data.Finmap
import Mathlib.Data.Multiset.Filter

/-- A hash table: a finite map whose iteration order is left open. -/
abbrev HashTable (K V : Type) := Finmap fun _ : K => V

namespace HashTable

variable {K V : Type} [DecidableEq K]

theorem lookup_insert_eq_ite (t : HashTable K V) (k k' : K) (v : V) :
    (t.insert k v).lookup k' = if k' = k then some v else t.lookup k' := by
  split
  · next h => rw [h, Finmap.lookup_insert]
  · next h => rw [Finmap.lookup_insert_of_ne _ h]

theorem lookup_erase_eq_ite (t : HashTable K V) (k k' : K) :
    (t.erase k).lookup k' = if k' = k then none else t.lookup k' := by
  split
  · next h => rw [h, Finmap.lookup_erase]
  · next h => rw [Finmap.lookup_erase_ne h]

/-- A new value for a key of the table leaves its keys. -/
theorem mem_insert_iff {t : HashTable K V} {k k' : K} {v : V} (hk : k ∈ t) : k' ∈ t.insert k v ↔ k' ∈ t := by
  rw [Finmap.mem_insert]
  constructor
  · rintro (rfl | hmem)
    · exact hk
    · exact hmem
  · exact Or.inr

@[simp] theorem erase_insert_self (t : HashTable K V) (k : K) (v : V) :
    (t.insert k v).erase k = t.erase k := by
  apply Finmap.ext_lookup
  intro k'
  simp only [lookup_erase_eq_ite, lookup_insert_eq_ite]
  split <;> rfl

theorem insert_erase_of_lookup {t : HashTable K V} {k : K} {v : V} (h : t.lookup k = some v) :
    (t.erase k).insert k v = t := by
  apply Finmap.ext_lookup
  intro k'
  simp only [lookup_insert_eq_ite, lookup_erase_eq_ite]
  split
  · next hk => rw [hk, h]
  · rfl

theorem insert_of_lookup {t : HashTable K V} {k : K} {v : V} (h : t.lookup k = some v) : t.insert k v = t := by
  apply Finmap.ext_lookup
  intro k'
  rw [lookup_insert_eq_ite]
  split
  · next hk => rw [hk, h]
  · rfl

theorem erase_of_notMem {t : HashTable K V} {k : K} (h : k ∉ t) : t.erase k = t := by
  apply Finmap.ext_lookup
  intro k'
  rw [lookup_erase_eq_ite]
  split
  · next hk => rw [hk, Finmap.lookup_eq_none.mpr h]
  · rfl

/-- Two insertions under different keys may be exchanged. -/
theorem insert_comm (t : HashTable K V) {k k' : K} (hne : k ≠ k') (v v' : V) :
    (t.insert k v).insert k' v' = (t.insert k' v').insert k v := by
  apply Finmap.ext_lookup
  intro x
  simp only [lookup_insert_eq_ite]
  split <;> split <;> simp_all

/-- The values of the table, each as often as it is stored. -/
def values (t : HashTable K V) : Multiset V := t.entries.map Sigma.snd

omit [DecidableEq K] in
@[simp] theorem values_empty : values (∅ : HashTable K V) = 0 := rfl

theorem values_insert_of_lookup_none {t : HashTable K V} {k : K} (h : t.lookup k = none) (v : V) :
    values (t.insert k v) = v ::ₘ values t := by
  rw [values, Finmap.entries_insert_of_notMem (Finmap.lookup_eq_none.mp h), Multiset.map_cons, values]

/-- A stored value can be split off together with its key. -/
theorem values_eq_cons_erase {t : HashTable K V} {k : K} {v : V} (h : t.lookup k = some v) :
    values t = v ::ₘ values (t.erase k) := by
  rw [← values_insert_of_lookup_none (Finmap.lookup_erase k t) v, insert_erase_of_lookup h]

theorem values_insert (t : HashTable K V) (k : K) (v : V) :
    values (t.insert k v) = v ::ₘ values (t.erase k) := by
  rw [values_eq_cons_erase (Finmap.lookup_insert t), erase_insert_self]

theorem mem_values {t : HashTable K V} {v : V} : v ∈ values t ↔ ∃ k, t.lookup k = some v := by
  simp only [values, Multiset.mem_map, Finmap.lookup_eq_some_iff]
  constructor
  · rintro ⟨⟨k, w⟩, hmem, rfl⟩
    exact ⟨k, hmem⟩
  · rintro ⟨k, hmem⟩
    exact ⟨⟨k, v⟩, hmem, rfl⟩

omit [DecidableEq K] in
theorem filterMap_congr {m : Multiset K} {f g : K → Option V} (h : ∀ x ∈ m, f x = g x) :
    m.filterMap f = m.filterMap g := by
  induction m using Quotient.inductionOn with
  | h l => exact congrArg _ (List.filterMap_congr h)

/-- What a function picks from the values, counted by the keys they are stored under. -/
theorem filterMap_values {W : Type} (t : HashTable K V) (f : V → Option W) :
    (values t).filterMap f = t.keys.val.filterMap fun k => (t.lookup k).bind f := by
  have hkeys : t.keys.val = t.entries.map Sigma.fst := rfl
  rw [hkeys, values, Multiset.filterMap_map, Multiset.filterMap_map]
  refine filterMap_congr ?_
  rintro ⟨k, v⟩ hmem
  simp [Finmap.lookup_eq_some_iff.mpr hmem]

/-- Values that know the key they are stored under do so without repetition. -/
theorem nodup_map_values {t : HashTable K V} {f : V → K} (h : ∀ k v, t.lookup k = some v → f v = k) :
    ((values t).map f).Nodup := by
  have hkeys : (values t).map f = t.entries.map Sigma.fst := by
    rw [values, Multiset.map_map]
    refine Multiset.map_congr rfl ?_
    rintro ⟨k, v⟩ hmem
    exact h k v (Finmap.lookup_eq_some_iff.mpr hmem)
  rw [hkeys]
  exact t.nodupKeys.nodup_keys

end HashTable
