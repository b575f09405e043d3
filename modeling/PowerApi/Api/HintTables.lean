import PowerApi.Api.AppHints

open CString HashTable
open SortedList hiding insert_sorted mem_insert_sorted

namespace pwrapi

theorem _sortnames_comparesRank : ComparesRank _sortnames (fun _ => True) id := strcmp_comparesRank

theorem _sorthints_comparesRank (hints : HashTable Nat Hint) :
    ComparesRank (_sorthints hints) (fun _ => True) (hint_name hints) where
  neg_iff _ _ := strcmp_neg
  zero_iff _ _ := strcmp_eq_zero

theorem _sortnames_consistent (a b c : List Char) : Consistent _sortnames a b c :=
  _sortnames_comparesRank.consistent trivial trivial trivial

theorem _sorthints_consistent (hints : HashTable Nat Hint) (a b c : Nat) : Consistent (_sorthints hints) a b c :=
  (_sorthints_comparesRank hints).consistent trivial trivial trivial

theorem hint_name_of_lookup {hints : HashTable Nat Hint} {h : Nat} {hint : Hint}
    (hlookup : hints.lookup h = some hint) : hint_name hints h = hint.name := by
  rw [hint_name, hlookup]

/-- The order of the hints of an object depends on their own names only. -/
theorem sorted_hints_congr {hints hints' : HashTable Nat Hint} {l : List Nat}
    (hsame : ∀ h ∈ l, hints'.lookup h = hints.lookup h) (hl : Sorted (_sorthints hints) l) :
    Sorted (_sorthints hints') l := by
  refine List.Pairwise.imp_of_mem ?_ hl
  intro a b ha hb hle
  rw [_sorthints, hint_name, hint_name, hsame a ha, hsame b hb]
  exact hle

namespace Handles

variable {α : Type} [DecidableEq α] {h : Handles α} {record : α} {type type' : OpaqueType} {key key' : UInt64}

omit [DecidableEq α] in
/-- A record has one type and one key. -/
theorem Tracked.entry_unique (ht : h.Tracked) (hl : ⟨record, type, key⟩ ∈ h.live)
    (hl' : ⟨record, type', key'⟩ ∈ h.live) : type = type' ∧ key = key' := by
  have heq := List.inj_on_of_nodup_map ht.records hl hl' rfl
  exact ⟨congrArg Live.type heq, congrArg Live.key heq⟩

omit [DecidableEq α] in
/-- What the removal of a key leaves are the other records. -/
theorem Tracked.mem_filter_key (ht : h.Tracked) (hl : ⟨record, type, key⟩ ∈ h.live) {l : Live α} :
    l ∈ h.live.filter (fun l => l.key ≠ key) ↔ l ∈ h.live ∧ l.record ≠ record := by
  rw [List.mem_filter, decide_eq_true_eq]
  refine and_congr_right fun hmem => not_congr ⟨?_, ?_⟩
  · intro hkey
    exact congrArg Live.record (List.inj_on_of_nodup_map ht.distinct hmem hl hkey)
  · intro hrecord
    exact congrArg Live.key (List.inj_on_of_nodup_map ht.records hmem hl hrecord)

end Handles

namespace AppHints

/-- The hint is in the sequence of the object. -/
def Attached (s : AppHints) (h o : Nat) : Prop := ∃ obj, s.objects.lookup o = some obj ∧ h ∈ obj.hints

/-- The hints and the objects are the records with an opaque key, `live` being all of these. -/
structure Keyed (s : AppHints) (live : List (Live Nat)) : Prop where
  tracked : Handles.Tracked { map := s.opaque_map, live }
  hint_iff : ∀ h, (∃ key, ⟨h, .HINT, key⟩ ∈ live) ↔ (s.hints.lookup h).isSome
  object_iff : ∀ o, (∃ key, ⟨o, .OBJECT, key⟩ ∈ live) ↔ (s.objects.lookup o).isSome

/-- Every hint is in the sequence of its object, and nothing else is in the sequences. -/
structure Linked (s : AppHints) : Prop where
  owned : ∀ {o obj}, s.objects.lookup o = some obj → ∀ h ∈ obj.hints,
    ∃ hint, s.hints.lookup h = some hint ∧ hint.objptr = o
  attached : ∀ {h hint}, s.hints.lookup h = some hint → s.Attached h hint.objptr
  hints_sorted : ∀ {o obj}, s.objects.lookup o = some obj → Sorted (_sorthints s.hints) obj.hints
  hints_nodup : ∀ {o obj}, s.objects.lookup o = some obj → obj.hints.Nodup
  fits : ∀ {o obj}, s.objects.lookup o = some obj → Fits obj.name

/-- The names in use are the names of the hints, and no two hints have the same. -/
structure Named (s : AppHints) : Prop where
  names_sorted : Sorted _sortnames s.hintnames
  names_nodup : s.hintnames.Nodup
  names_iff : ∀ name, name ∈ s.hintnames ↔ ∃ h hint, s.hints.lookup h = some hint ∧ hint.name = name
  names_distinct : ∀ {h h' hint hint'}, s.hints.lookup h = some hint → s.hints.lookup h' = some hint' →
    hint.name = hint'.name → h = h'

/-- The three tables agree. -/
structure Sound (s : AppHints) (live : List (Live Nat)) : Prop where
  keyed : s.Keyed live
  linked : s.Linked
  named : s.Named

variable {s s' : AppHints} {live : List (Live Nat)} {o h : Nat} {obj : HintedObj} {hint : Hint}

theorem Keyed.lookup_hint_iff (hs : s.Keyed live) {key : UInt64} :
    s.opaque_map_lookup_hint key = some h ↔ ⟨h, .HINT, key⟩ ∈ live := hs.tracked.sound.lookup key .HINT h

/-- A live hint is entered under the key in its header. -/
theorem Keyed.hint_entry (hs : s.Keyed live) (hhint : s.hints.lookup h = some hint) :
    ⟨h, .HINT, s.opaque_key h⟩ ∈ live := by
  obtain ⟨key, hmem⟩ := (hs.hint_iff h).mpr (by rw [hhint]; rfl)
  have href : s.opaque_map.refs h = { type := .HINT, key } := hs.tracked.refs _ hmem
  rw [opaque_key, href]
  exact hmem

theorem Keyed.object_entry (hs : s.Keyed live) (hobj : s.objects.lookup o = some obj) :
    ⟨o, .OBJECT, s.opaque_key o⟩ ∈ live := by
  obtain ⟨key, hmem⟩ := (hs.object_iff o).mpr (by rw [hobj]; rfl)
  have href : s.opaque_map.refs o = { type := .OBJECT, key } := hs.tracked.refs _ hmem
  rw [opaque_key, href]
  exact hmem

/-- The state without one of the hints of an object. -/
def without (s : AppHints) (o : Nat) (obj : HintedObj) (h : Nat) (hint : Hint) : AppHints :=
  { s with opaque_map := (opaque_map_remove s.opaque_map (s.opaque_key h)).2,
           hintnames := s.hintnames.erase hint.name,
           objects := s.objects.insert o { obj with hints := obj.hints.erase h },
           hints := s.hints.erase h }

section Without

theorem lookup_hints_without {h' : Nat} {hint' : Hint} :
    (s.without o obj h hint).hints.lookup h' = some hint' ↔ h' ≠ h ∧ s.hints.lookup h' = some hint' := by
  rw [without, lookup_erase_eq_ite]
  split <;> simp [*]

theorem lookup_objects_without {o' : Nat} : (s.without o obj h hint).objects.lookup o' =
    if o' = o then some { obj with hints := obj.hints.erase h } else s.objects.lookup o' :=
  lookup_insert_eq_ite _ _ _ _

theorem Keyed.without (hs : s.Keyed live) (hobj : s.objects.lookup o = some obj)
    (hhint : s.hints.lookup h = some hint) :
    (s.without o obj h hint).Keyed (live.filter fun l => l.key ≠ s.opaque_key h) := by
  have hentry := hs.hint_entry hhint
  refine ⟨hs.tracked.remove _, fun h' => ?_, fun o' => ?_⟩
  · simp only [hs.tracked.mem_filter_key hentry, AppHints.without, lookup_erase_eq_ite, exists_and_right, hs.hint_iff]
    split <;> simp [*]
  · simp only [hs.tracked.mem_filter_key hentry, lookup_objects_without]
    constructor
    · rintro ⟨key, hmem, -⟩
      split
      · rfl
      · exact (hs.object_iff o').mp ⟨key, hmem⟩
    · intro hsome
      have hold : (s.objects.lookup o').isSome := by
        split at hsome
        · next heq => rw [heq, hobj]; rfl
        · exact hsome
      obtain ⟨key, hmem⟩ := (hs.object_iff o').mpr hold
      refine ⟨key, hmem, ?_⟩
      rintro rfl
      cases (hs.tracked.entry_unique hmem hentry).1

/-- A hint of another object is another hint. -/
theorem Linked.ne_of_other (hs : s.Linked) (hhint : s.hints.lookup h = some hint) {o' h' : Nat} {obj' : HintedObj}
    (hobj' : s.objects.lookup o' = some obj') (hne : o' ≠ hint.objptr) (hmem : h' ∈ obj'.hints) : h' ≠ h := by
  rintro rfl
  obtain ⟨hint', hhint', rfl⟩ := hs.owned hobj' h' hmem
  rw [hhint] at hhint'
  cases hhint'
  exact hne rfl

theorem Linked.without (hs : s.Linked) (hobj : s.objects.lookup hint.objptr = some obj)
    (hhint : s.hints.lookup h = some hint) : (s.without hint.objptr obj h hint).Linked := by
  have hnodup := hs.hints_nodup hobj
  have hsorted : ∀ {l : List Nat}, Sorted (_sorthints s.hints) l → h ∉ l →
      Sorted (_sorthints (s.hints.erase h)) l := by
    intro l hl hmem
    refine sorted_hints_congr (fun h' hh' => ?_) hl
    rw [lookup_erase_eq_ite, if_neg (ne_of_mem_of_not_mem hh' hmem)]
  refine ⟨?_, ?_, ?_, ?_, ?_⟩
  · intro o' obj' hobj' h' hmem
    rw [lookup_objects_without] at hobj'
    split at hobj'
    · next heq =>
      cases hobj'
      obtain ⟨hne, hmem⟩ := hnodup.mem_erase_iff.mp hmem
      obtain ⟨hint', hhint', howner⟩ := hs.owned hobj h' hmem
      exact ⟨hint', lookup_hints_without.mpr ⟨hne, hhint'⟩, howner.trans heq.symm⟩
    · next hne =>
      obtain ⟨hint', hhint', howner⟩ := hs.owned hobj' h' hmem
      exact ⟨hint', lookup_hints_without.mpr ⟨hs.ne_of_other hhint hobj' hne hmem, hhint'⟩, howner⟩
  · intro h' hint' hhint'
    obtain ⟨hne, hhint'⟩ := lookup_hints_without.mp hhint'
    obtain ⟨obj', hobj', hmem⟩ := hs.attached hhint'
    by_cases heq : hint'.objptr = hint.objptr
    · rw [heq, hobj] at hobj'
      cases hobj'
      exact ⟨_, by rw [lookup_objects_without, if_pos heq], hnodup.mem_erase_iff.mpr ⟨hne, hmem⟩⟩
    · exact ⟨obj', by rw [lookup_objects_without, if_neg heq, hobj'], hmem⟩
  · intro o' obj' hobj'
    rw [lookup_objects_without] at hobj'
    split at hobj'
    · cases hobj'
      exact hsorted ((hs.hints_sorted hobj).sublist List.erase_sublist) hnodup.not_mem_erase
    · next hne => exact hsorted (hs.hints_sorted hobj') fun hmem => hs.ne_of_other hhint hobj' hne hmem rfl
  · intro o' obj' hobj'
    rw [lookup_objects_without] at hobj'
    split at hobj'
    · cases hobj'
      exact hnodup.erase _
    · exact hs.hints_nodup hobj'
  · intro o' obj' hobj'
    rw [lookup_objects_without] at hobj'
    split at hobj'
    · cases hobj'
      exact show Fits obj.name from hs.fits hobj
    · exact hs.fits hobj'

theorem Named.without (hs : s.Named) (hhint : s.hints.lookup h = some hint) : (s.without o obj h hint).Named := by
  refine ⟨hs.names_sorted.sublist List.erase_sublist, hs.names_nodup.erase _, fun name => ?_, ?_⟩
  · rw [AppHints.without, hs.names_nodup.mem_erase_iff, hs.names_iff]
    constructor
    · rintro ⟨hne, h', hint', hhint', rfl⟩
      refine ⟨h', hint', lookup_hints_without.mpr ⟨?_, hhint'⟩, rfl⟩
      rintro rfl
      rw [hhint] at hhint'
      cases hhint'
      exact hne rfl
    · rintro ⟨h', hint', hhint', rfl⟩
      obtain ⟨hne, hhint'⟩ := lookup_hints_without.mp hhint'
      exact ⟨fun heq => hne (hs.names_distinct hhint' hhint heq), h', hint', hhint', rfl⟩
  · intro h₁ h₂ hint₁ hint₂ hhint₁ hhint₂
    exact hs.names_distinct (lookup_hints_without.mp hhint₁).2 (lookup_hints_without.mp hhint₂).2

/-- Taking one hint out of the three tables keeps them in agreement. -/
theorem Sound.without (hs : s.Sound live) (hobj : s.objects.lookup hint.objptr = some obj)
    (hhint : s.hints.lookup h = some hint) :
    (s.without hint.objptr obj h hint).Sound (live.filter fun l => l.key ≠ s.opaque_key h) :=
  ⟨hs.keyed.without hobj hhint, hs.linked.without hobj hhint, hs.named.without hhint⟩

variable [SortedSequence]

open SortedSequence

theorem Sound.remove_hint_eq (hs : s.Sound live) (hobj : s.objects.lookup o = some obj) {i : Nat}
    (hi : obj.hints[i]? = some h) (hhint : s.hints.lookup h = some hint) :
    remove_hint o i s = some (s.without o obj h hint) := by
  have hname : hint.name ∈ s.hintnames := (hs.named.names_iff _).mpr ⟨h, hint, hhint, rfl⟩
  obtain ⟨j, hj, hat⟩ := lookup_of_mem _sortnames_consistent hs.named.names_sorted hname
    (strcmp_eq_zero.mpr rfl) fun name _ => strcmp_eq_zero.mp
  have hkey : (s.opaque_map.refs h).key ≠ 0 := (hs.keyed.tracked.range _ (hs.keyed.hint_entry hhint)).1
  simp only [remove_hint, hobj, hi, _del_hint, hhint, hj, opaque_key, ne_eq, hkey, not_false_eq_true, if_true,
    eraseIdx_eq_erase hs.named.names_nodup hat, eraseIdx_eq_erase (hs.linked.hints_nodup hobj) hi]
  rfl

/-- A hint that is found is taken out of the three tables. -/
theorem Sound.PWR_AppHintDestroy_eq (hs : s.Sound live) {hint_region_id : UInt64}
    (hfound : s.opaque_map_lookup_hint (OPAQUE_GET_DATA_KEY hint_region_id) = some h) :
    ∃ hint obj, s.hints.lookup h = some hint ∧ s.objects.lookup hint.objptr = some obj ∧
      s.PWR_AppHintDestroy hint_region_id =
        some ({ status := PWR_RET_SUCCESS }, s.without hint.objptr obj h hint) := by
  obtain ⟨hint, hhint⟩ : ∃ hint, s.hints.lookup h = some hint :=
    Option.isSome_iff_exists.mp ((hs.keyed.hint_iff h).mp ⟨_, hs.keyed.lookup_hint_iff.mp hfound⟩)
  obtain ⟨obj, hobj, hmem⟩ := hs.linked.attached hhint
  have honly : ∀ h' ∈ obj.hints, _sorthints s.hints h' h = 0 → h' = h := by
    intro h' hh' hzero
    obtain ⟨hint', hhint', -⟩ := hs.linked.owned hobj h' hh'
    refine hs.named.names_distinct hhint' hhint ?_
    rw [← hint_name_of_lookup hhint', ← hint_name_of_lookup hhint]
    exact strcmp_eq_zero.mp hzero
  obtain ⟨i, hi, hat⟩ := lookup_of_mem (_sorthints_consistent s.hints) (hs.linked.hints_sorted hobj) hmem
    (strcmp_eq_zero.mpr rfl) honly
  refine ⟨hint, obj, hhint, hobj, ?_⟩
  simp [PWR_AppHintDestroy, hfound, hhint, app_hint_destroy, hobj, hi, hs.remove_hint_eq hobj hat hhint]

/-- Freeing the hints of an object takes out these and no others. -/
theorem Sound.destroy_hints_eq (hs : s.Sound live) (hobj : s.objects.lookup o = some obj) :
    ∃ s' live', destroy_hints o obj.hints s = some s' ∧ s'.Sound live' ∧
      s'.objects.lookup o = some { obj with hints := [] } ∧
      (∀ o', o' ≠ o → s'.objects.lookup o' = s.objects.lookup o') ∧
      ∀ h, s'.hints.lookup h = if h ∈ obj.hints then none else s.hints.lookup h := by
  generalize hlist : obj.hints = hints
  induction hints generalizing s live obj with
  | nil => exact ⟨s, live, rfl, hs, by rw [hobj, ← hlist], fun _ _ => rfl, by simp⟩
  | cons h rest ih =>
    obtain ⟨hint, hhint, rfl⟩ := hs.linked.owned hobj h (by simp [hlist])
    have herase : obj.hints.erase h = rest := by rw [hlist, List.erase_cons_head]
    have hobj₁ : (s.without hint.objptr obj h hint).objects.lookup hint.objptr = some { obj with hints := rest } := by
      rw [lookup_objects_without, if_pos rfl, herase]
    obtain ⟨s', live', heq, hs', hobj', hothers, hhints⟩ := ih (hs.without hobj hhint) hobj₁ rfl
    refine ⟨s', live', ?_, hs', hobj', fun o' hne => ?_, fun h' => ?_⟩
    · rw [destroy_hints, hs.remove_hint_eq hobj (by simp [hlist]) hhint]
      exact heq
    · rw [hothers o' hne, lookup_objects_without, if_neg hne]
    · rw [hhints h', AppHints.without, lookup_erase_eq_ite]
      by_cases hself : h' = h <;> simp [hself]

end Without

section Delete

/-- The state without an object. -/
def without_object (s : AppHints) (o : Nat) : AppHints :=
  { s with opaque_map := (opaque_map_remove s.opaque_map (s.opaque_key o)).2, objects := s.objects.erase o }

theorem lookup_objects_without_object {o' : Nat} {obj' : HintedObj} :
    (s.without_object o).objects.lookup o' = some obj' ↔ o' ≠ o ∧ s.objects.lookup o' = some obj' := by
  rw [without_object, lookup_erase_eq_ite]
  split <;> simp [*]

/-- An object whose hints are gone can be taken out. -/
theorem Sound.without_object (hs : s.Sound live) (hobj : s.objects.lookup o = some obj) (hnone : obj.hints = []) :
    (s.without_object o).Sound (live.filter fun l => l.key ≠ s.opaque_key o) := by
  have hentry := hs.keyed.object_entry hobj
  refine ⟨⟨hs.keyed.tracked.remove _, fun h' => ?_, fun o' => ?_⟩, ⟨?_, ?_, ?_, ?_, ?_⟩,
    ⟨hs.named.names_sorted, hs.named.names_nodup, hs.named.names_iff, hs.named.names_distinct⟩⟩
  · simp only [hs.keyed.tracked.mem_filter_key hentry]
    refine Iff.trans ⟨?_, ?_⟩ (hs.keyed.hint_iff h')
    · rintro ⟨key, hmem, -⟩
      exact ⟨key, hmem⟩
    · rintro ⟨key, hmem⟩
      refine ⟨key, hmem, ?_⟩
      rintro rfl
      cases (hs.keyed.tracked.entry_unique hmem hentry).1
  · simp only [hs.keyed.tracked.mem_filter_key hentry, AppHints.without_object, lookup_erase_eq_ite, exists_and_right,
      hs.keyed.object_iff]
    split <;> simp [*]
  · intro o' obj' hobj'
    exact hs.linked.owned (lookup_objects_without_object.mp hobj').2
  · intro h hint hhint
    obtain ⟨obj', hobj', hmem⟩ := hs.linked.attached hhint
    refine ⟨obj', lookup_objects_without_object.mpr ⟨?_, hobj'⟩, hmem⟩
    intro heq
    rw [heq, hobj] at hobj'
    cases hobj'
    simp [hnone] at hmem
  · intro o' obj' hobj'
    exact hs.linked.hints_sorted (lookup_objects_without_object.mp hobj').2
  · intro o' obj' hobj'
    exact hs.linked.hints_nodup (lookup_objects_without_object.mp hobj').2
  · intro o' obj' hobj'
    exact hs.linked.fits (lookup_objects_without_object.mp hobj').2

theorem Sound.del_object_eq [SortedSequence] (hs : s.Sound live) (hobj : s.objects.lookup o = some obj) :
    ∃ s' live', del_object o s = some s' ∧ s'.Sound live' ∧ (∀ o' obj', s'.objects.lookup o' = some obj' ↔
        o' ≠ o ∧ s.objects.lookup o' = some obj') ∧
      ∀ h, s'.hints.lookup h = if h ∈ obj.hints then none else s.hints.lookup h := by
  obtain ⟨s₁, live₁, heq, hs₁, hobj₁, hothers, hhints⟩ := hs.destroy_hints_eq hobj
  refine ⟨s₁.without_object o, _, ?_, hs₁.without_object hobj₁ rfl, fun o' obj' => ?_, hhints⟩
  · simp only [del_object, hobj, heq]
    rfl
  · rw [lookup_objects_without_object]
    exact and_congr_right fun hne => by rw [hothers o' hne]

end Delete

section Create

variable [SortedSequence]

open SortedSequence

/-- The state with a new hint of an object, under a new key. -/
def with_hint (s : AppHints) (obj : HintedObj) (hint : Hint) (h : Nat) (key : UInt64) : AppHints :=
  { s with
    opaque_map := { table := s.opaque_map.table.insert key h,
                    refs := Function.update s.opaque_map.refs h { type := .HINT, key } },
    hintnames := insert_sorted s.hintnames hint.name _sortnames,
    objects := s.objects.insert hint.objptr
      { obj with hints := insert_sorted obj.hints h (_sorthints (s.hints.insert h hint)) },
    hints := s.hints.insert h hint }

theorem lookup_hints_with_hint {key : UInt64} {h' : Nat} :
    (s.with_hint obj hint h key).hints.lookup h' = if h' = h then some hint else s.hints.lookup h' :=
  lookup_insert_eq_ite _ _ _ _

theorem lookup_objects_with_hint {key : UInt64} {o' : Nat} : (s.with_hint obj hint h key).objects.lookup o' =
    if o' = hint.objptr then some { obj with hints := insert_sorted obj.hints h (_sorthints (s.hints.insert h hint)) }
    else s.objects.lookup o' := lookup_insert_eq_ite _ _ _ _

theorem Keyed.with_hint (hs : s.Keyed live) (hobj : s.objects.lookup hint.objptr = some obj)
    (hnew : ∀ l ∈ live, l.record ≠ h) {key : UInt64} (hkey : key ≠ 0) (hlt : key.toNat < 2 ^ 32)
    (hfree : s.opaque_map.table.lookup key = none) :
    (s.with_hint obj hint h key).Keyed (⟨h, .HINT, key⟩ :: live) := by
  refine ⟨hs.tracked.insert .HINT hnew hkey hlt hfree, fun h' => ?_, fun o' => ?_⟩
  · simp only [List.mem_cons, exists_or, hs.hint_iff, lookup_hints_with_hint]
    split <;> simp [*]
  · have hold := hs.object_iff o'
    simp only [List.mem_cons, Live.mk.injEq, reduceCtorEq, false_and, and_false, false_or, hold,
      lookup_objects_with_hint]
    split
    · next heq =>
      subst heq
      simp [hobj]
    · rfl

theorem Linked.with_hint (hs : s.Linked) (hobj : s.objects.lookup hint.objptr = some obj)
    (hnew : s.hints.lookup h = none) (key : UInt64) : (s.with_hint obj hint h key).Linked := by
  have hother : ∀ {o' obj' h'}, s.objects.lookup o' = some obj' → h' ∈ obj'.hints → h' ≠ h := by
    rintro o' obj' h' hobj' hmem rfl
    obtain ⟨hint', hhint', -⟩ := hs.owned hobj' h' hmem
    rw [hnew] at hhint'
    cases hhint'
  have hsorted : ∀ {o' obj'}, s.objects.lookup o' = some obj' →
      Sorted (_sorthints (s.hints.insert h hint)) obj'.hints := by
    intro o' obj' hobj'
    refine sorted_hints_congr (fun h' hmem => ?_) (hs.hints_sorted hobj')
    rw [lookup_insert_eq_ite, if_neg (hother hobj' hmem)]
  have hmem : ∀ h', h' ∈ insert_sorted obj.hints h (_sorthints (s.hints.insert h hint)) ↔ h' = h ∨ h' ∈ obj.hints :=
    fun h' => mem_insert_sorted (_sorthints_consistent _) (hsorted hobj)
  refine ⟨?_, ?_, ?_, ?_, ?_⟩
  · intro o' obj' hobj' h' hh'
    rw [lookup_objects_with_hint] at hobj'
    split at hobj'
    · next heq =>
      cases hobj'
      obtain rfl | hh' := (hmem h').mp hh'
      · exact ⟨hint, by rw [lookup_hints_with_hint, if_pos rfl], heq.symm⟩
      · obtain ⟨hint', hhint', howner⟩ := hs.owned hobj h' hh'
        exact ⟨hint', by rw [lookup_hints_with_hint, if_neg (hother hobj hh'), hhint'], howner.trans heq.symm⟩
    · obtain ⟨hint', hhint', howner⟩ := hs.owned hobj' h' hh'
      exact ⟨hint', by rw [lookup_hints_with_hint, if_neg (hother hobj' hh'), hhint'], howner⟩
  · intro h' hint' hhint'
    rw [lookup_hints_with_hint] at hhint'
    split at hhint'
    · next heq =>
      cases hhint'
      exact ⟨_, by rw [lookup_objects_with_hint, if_pos rfl], (hmem h').mpr (Or.inl heq)⟩
    · obtain ⟨obj', hobj', hh'⟩ := hs.attached hhint'
      by_cases heq : hint'.objptr = hint.objptr
      · rw [heq, hobj] at hobj'
        cases hobj'
        exact ⟨_, by rw [lookup_objects_with_hint, if_pos heq], (hmem h').mpr (Or.inr hh')⟩
      · exact ⟨obj', by rw [lookup_objects_with_hint, if_neg heq, hobj'], hh'⟩
  · intro o' obj' hobj'
    rw [lookup_objects_with_hint] at hobj'
    split at hobj'
    · cases hobj'
      exact insert_keeps_sorted (_sorthints_consistent _) (hsorted hobj)
    · exact hsorted hobj'
  · intro o' obj' hobj'
    rw [lookup_objects_with_hint] at hobj'
    split at hobj'
    · cases hobj'
      refine (insert_perm (_sorthints_consistent _) (hsorted hobj)).nodup_iff.mpr ?_
      exact List.nodup_cons.mpr ⟨fun hself => hother hobj hself rfl, hs.hints_nodup hobj⟩
    · exact hs.hints_nodup hobj'
  · intro o' obj' hobj'
    rw [lookup_objects_with_hint] at hobj'
    split at hobj'
    · cases hobj'
      exact show Fits obj.name from hs.fits hobj
    · exact hs.fits hobj'

theorem Named.with_hint (hs : s.Named) (hnew : s.hints.lookup h = none) (hname : hint.name ∉ s.hintnames)
    (obj : HintedObj) (key : UInt64) : (s.with_hint obj hint h key).Named := by
  have hne : ∀ {h' hint'}, s.hints.lookup h' = some hint' → h' ≠ h ∧ hint'.name ≠ hint.name := by
    intro h' hint' hhint'
    refine ⟨?_, fun heq => hname ((hs.names_iff _).mpr ⟨h', hint', hhint', heq⟩)⟩
    rintro rfl
    rw [hnew] at hhint'
    cases hhint'
  refine ⟨insert_keeps_sorted _sortnames_consistent hs.names_sorted, ?_, fun name => ?_, ?_⟩
  · refine (insert_perm _sortnames_consistent hs.names_sorted).nodup_iff.mpr ?_
    exact List.nodup_cons.mpr ⟨hname, hs.names_nodup⟩
  · rw [AppHints.with_hint, mem_insert_sorted _sortnames_consistent hs.names_sorted, hs.names_iff]
    constructor
    · rintro (rfl | ⟨h', hint', hhint', rfl⟩)
      · exact ⟨h, hint, by rw [lookup_insert_eq_ite, if_pos rfl], rfl⟩
      · exact ⟨h', hint', by rw [lookup_insert_eq_ite, if_neg (hne hhint').1, hhint'], rfl⟩
    · rintro ⟨h', hint', hhint', rfl⟩
      rw [lookup_insert_eq_ite] at hhint'
      split at hhint'
      · cases hhint'
        exact Or.inl rfl
      · exact Or.inr ⟨h', hint', hhint', rfl⟩
  · intro h₁ h₂ hint₁ hint₂ hhint₁ hhint₂ heq
    rw [lookup_hints_with_hint] at hhint₁ hhint₂
    split at hhint₁ <;> split at hhint₂
    · next h₁eq h₂eq => exact h₁eq.trans h₂eq.symm
    · cases hhint₁
      exact absurd heq.symm (hne hhint₂).2
    · cases hhint₂
      exact absurd heq (hne hhint₁).2
    · exact hs.names_distinct hhint₁ hhint₂ heq

/-- A new hint with an unused name that is entered in the three tables keeps them in agreement. -/
theorem Sound.with_hint (hs : s.Sound live) (hobj : s.objects.lookup hint.objptr = some obj)
    (hnew : ∀ l ∈ live, l.record ≠ h) (hname : hint.name ∉ s.hintnames) {key : UInt64} (hkey : key ≠ 0)
    (hlt : key.toNat < 2 ^ 32) (hfree : s.opaque_map.table.lookup key = none) :
    (s.with_hint obj hint h key).Sound (⟨h, .HINT, key⟩ :: live) := by
  have hnone : s.hints.lookup h = none := by
    refine Option.not_isSome_iff_eq_none.mp fun hsome => ?_
    obtain ⟨key, hmem⟩ := (hs.keyed.hint_iff h).mpr hsome
    exact hnew _ hmem rfl
  exact ⟨hs.keyed.with_hint hobj hnew hkey hlt hfree, hs.linked.with_hint hobj hnone key,
    hs.named.with_hint hnone hname obj key⟩

end Create

end AppHints

end pwrapi
