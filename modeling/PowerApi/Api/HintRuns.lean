import PowerApi.Api.HintTables

open CString Execution HashTable

namespace pwrapi

theorem fits_of_length {name : List Char} (h : name.length ≤ 101) : Fits name := by
  intro unique
  have hdigits := length_print_lu_le unique
  simp only [hint_format, List.length_append, List.length_cons, List.length_nil]
  omega

/-- A name that fits the buffer gives other names with other numbers. -/
theorem Fits.localname_injective {name : List Char} (hfits : Fits name) : Function.Injective (localname name) := by
  intro m n h
  rw [localname, localname, snprintf_eq_self (hfits m), snprintf_eq_self (hfits n), hint_format, hint_format,
    List.append_cancel_left_eq, List.cons.injEq] at h
  exact print_lu_injective h.2

namespace AppHints

variable {s s' : AppHints} {live : List (Live Nat)} {o h : Nat} {obj : HintedObj} {hint : Hint}

section Loop

variable [SortedSequence]

/-- A loop that goes on for so many rounds has found that many names in use. -/
theorem mem_of_unused_name_none {names : List (List Char)} (hs : SortedList.Sorted _sortnames names)
    {name : List Char} {rounds : Nat} {unique : UInt64} (h : unused_name names name rounds unique = none) :
    ∀ k < rounds, localname name (unique + 1 + UInt64.ofNat k) ∈ names := by
  induction rounds generalizing unique with
  | zero => simp
  | succ rounds ih =>
    intro k hk
    rw [unused_name] at h
    split at h
    · cases h
    · next i hlookup =>
      cases k with
      | zero =>
        obtain ⟨y, hy, hzero⟩ := SortedSequence.lookup_some _sortnames_consistent hs hlookup
        obtain rfl := strcmp_eq_zero.mp hzero
        simpa using List.mem_of_getElem? hy
      | succ k =>
        have hnext := ih h k (by omega)
        rwa [show unique + 1 + UInt64.ofNat (k + 1) = unique + 1 + 1 + UInt64.ofNat k by
          rw [UInt64.ofNat_add, UInt64.add_comm (UInt64.ofNat k), ← UInt64.add_assoc]; rfl]

theorem notMem_of_unused_name {names : List (List Char)} (hs : SortedList.Sorted _sortnames names)
    {name found : List Char} {rounds : Nat} {unique unique' : UInt64}
    (h : unused_name names name rounds unique = some (found, unique')) : found ∉ names := by
  induction rounds generalizing unique with
  | zero => cases h
  | succ rounds ih =>
    rw [unused_name] at h
    split at h
    · next hlookup =>
      cases h
      exact SortedSequence.notMem_of_lookup_none _sortnames_consistent hs (strcmp_eq_zero.mpr rfl) hlookup
    · exact ih h

omit [SortedSequence] in
/-- There are no more names in use than keys. -/
theorem Sound.names_length_le (hs : s.Sound live) : s.hintnames.length ≤ 2 ^ 32 := by
  have hnames : s.hintnames ⊆ live.map fun l => hint_name s.hints l.record := by
    intro name hmem
    obtain ⟨h, hint, hhint, rfl⟩ := (hs.named.names_iff name).mp hmem
    exact List.mem_map.mpr ⟨_, hs.keyed.hint_entry hhint, hint_name_of_lookup hhint⟩
  have hkeys : (live.map fun l => l.key.toNat) ⊆ List.range (2 ^ 32) := by
    intro key hmem
    obtain ⟨l, hl, rfl⟩ := List.mem_map.mp hmem
    exact List.mem_range.mpr (hs.keyed.tracked.range l hl).2
  have hdistinct : (live.map fun l => l.key.toNat).Nodup := by
    have hkeys : ((live.map Live.key).map UInt64.toNat).Nodup :=
      hs.keyed.tracked.distinct.map fun _ _ => UInt64.toNat_inj.mp
    rwa [List.map_map] at hkeys
  calc s.hintnames.length
      ≤ (live.map fun l => hint_name s.hints l.record).length :=
        (List.subperm_of_subset hs.named.names_nodup hnames).length_le
    _ = (live.map fun l => l.key.toNat).length := by simp
    _ ≤ (List.range (2 ^ 32)).length := (List.subperm_of_subset hdistinct hkeys).length_le
    _ = 2 ^ 32 := List.length_range

/-- The loop ends: there are more numbers than names in use. -/
theorem Sound.automatic_name_isSome (hs : s.Sound live) (hfits : Fits obj.name) :
    ∃ name hintunique, s.automatic_name obj = some (name, hintunique) ∧ name ∉ s.hintnames := by
  cases hname : s.automatic_name obj with
  | some found =>
    obtain ⟨name, hintunique⟩ := found
    exact ⟨name, hintunique, rfl, notMem_of_unused_name hs.named.names_sorted hname⟩
  | none =>
    have hmem := mem_of_unused_name_none hs.named.names_sorted hname
    have hsub : (List.range (2 ^ 64)).map (fun k => localname obj.name (s.hintunique + 1 + UInt64.ofNat k)) ⊆
        s.hintnames := by
      intro name hname
      obtain ⟨k, hk, rfl⟩ := List.mem_map.mp hname
      exact hmem k (List.mem_range.mp hk)
    have hnodup :
        ((List.range (2 ^ 64)).map fun k => localname obj.name (s.hintunique + 1 + UInt64.ofNat k)).Nodup := by
      refine List.Nodup.map_on ?_ List.nodup_range
      intro m hm n hn heq
      have hnumbers := UInt64.add_right_inj _ |>.mp (hfits.localname_injective heq)
      have hvalues := congrArg UInt64.toNat hnumbers
      rwa [UInt64.toNat_ofNat_of_lt' (List.mem_range.mp hm),
        UInt64.toNat_ofNat_of_lt' (List.mem_range.mp hn)] at hvalues
    have hlength := (List.subperm_of_subset hnodup hsub).length_le
    rw [List.length_map, List.length_range] at hlength
    exact absurd (hlength.trans hs.names_length_le) (by decide)

end Loop

/-- What a reached state promises: the names in use are those of the attached hints, all
different; every hint is in the sequence of one object, once, and has one opaque key; what
is no hint has neither. The loop that makes up a name ends, and no destruction reads freed memory. -/
structure Kept [SortedSequence] (s : AppHints) : Prop where
  names_nodup : s.hintnames.Nodup
  names_iff : ∀ name, name ∈ s.hintnames ↔
    ∃ h o hint, s.Attached h o ∧ s.hints.lookup h = some hint ∧ hint.name = name
  names_distinct : ∀ {h h' hint hint'}, s.hints.lookup h = some hint → s.hints.lookup h' = some hint' →
    hint.name = hint'.name → h = h'
  one_object : ∀ h, (s.hints.lookup h).isSome → ∃! o, s.Attached h o
  once : ∀ {o obj}, s.objects.lookup o = some obj → obj.hints.Nodup
  one_key : ∀ h, (s.hints.lookup h).isSome → ∃! key, s.opaque_map_lookup_hint key = some h
  no_others : ∀ h, s.hints.lookup h = none → (∀ o, ¬ s.Attached h o) ∧ ∀ key, s.opaque_map_lookup_hint key ≠ some h
  loop_ends : ∀ {o obj}, s.objects.lookup o = some obj →
    ∃ name hintunique, s.automatic_name obj = some (name, hintunique) ∧ name ∉ s.hintnames
  destroys : ∀ hint_region_id, (s.PWR_AppHintDestroy hint_region_id).isSome
  deletes : ∀ o, (s.objects.lookup o).isSome → (s.del_object o).isSome

/-- The call destroys the hint. -/
def Removes (s : AppHints) : HintCall → Nat → Prop
  | .create _ _ _ _ _ _, _ => False
  | .destroy hint_region_id, h => s.opaque_map_lookup_hint (OPAQUE_GET_DATA_KEY hint_region_id) = some h
  | .del_object o, h => s.Attached h o

/-- What a call does: refused, it changes nothing; a hint that it destroys is left without
key, object and name; the other hints stay. -/
structure Upheld [SortedSequence] (s : AppHints) (step : HintCall × Reply) (s' : AppHints) : Prop where
  before : s.Kept
  after : s'.Kept
  refused : step.2.status ≠ PWR_RET_SUCCESS → s' = s
  removed : ∀ h hint, s.Removes step.1 h → s.hints.lookup h = some hint →
    s'.hints.lookup h = none ∧ hint.name ∉ s'.hintnames ∧ (∀ o, ¬ s'.Attached h o) ∧
      ∀ key, s'.opaque_map_lookup_hint key ≠ some h
  stays : ∀ h hint, ¬ s.Removes step.1 h → s.hints.lookup h = some hint → s'.hints.lookup h = some hint

/-- No number that is drawn for a key is zero. -/
def DrawsNoZero (call : HintCall) : Prop := 0 ∉ call.draws

instance (call : HintCall) : Decidable (DrawsNoZero call) := inferInstanceAs (Decidable (0 ∉ call.draws))

/-- A context before its first hint: its objects are the objects with an opaque key, and
their names fit the buffer. -/
structure Begins (s : AppHints) : Prop where
  hints : s.hints = ∅
  hintnames : s.hintnames = []
  objects : ∀ {o obj}, s.objects.lookup o = some obj → obj.hints = [] ∧ Fits obj.name
  keys : ∃ live, Handles.Tracked { map := s.opaque_map, live } ∧ (∀ l ∈ live, l.type ≠ .HINT) ∧
    ∀ o, (∃ key, ⟨o, .OBJECT, key⟩ ∈ live) ↔ (s.objects.lookup o).isSome

theorem Begins.sound (hb : s.Begins) : ∃ live, s.Sound live := by
  obtain ⟨live, ht, hnone, hobjects⟩ := hb.keys
  have hno : ∀ {h hint}, s.hints.lookup h ≠ some hint := by simp [hb.hints]
  refine ⟨live, ⟨ht, fun h => ?_, hobjects⟩, ⟨?_, fun h => absurd h hno, ?_, ?_, fun h => (hb.objects h).2⟩,
    ⟨?_, ?_, ?_, fun h => absurd h hno⟩⟩
  · simp only [hb.hints, Finmap.lookup_empty, Option.isSome_none, Bool.false_eq_true, iff_false]
    rintro ⟨key, hmem⟩
    exact hnone _ hmem rfl
  · intro o obj hobj h hmem
    simp [(hb.objects hobj).1] at hmem
  · intro o obj hobj
    rw [(hb.objects hobj).1]
    exact List.Pairwise.nil
  · intro o obj hobj
    rw [(hb.objects hobj).1]
    exact List.nodup_nil
  · rw [hb.hintnames]
    exact List.Pairwise.nil
  · rw [hb.hintnames]
    exact List.nodup_nil
  · intro name
    simp [hb.hintnames, hb.hints]

theorem Sound.kept [SortedSequence] (hs : s.Sound live) : s.Kept where
  names_nodup := hs.named.names_nodup
  names_iff name := by
    rw [hs.named.names_iff]
    constructor
    · rintro ⟨h, hint, hhint, rfl⟩
      exact ⟨h, hint.objptr, hint, hs.linked.attached hhint, hhint, rfl⟩
    · rintro ⟨h, -, hint, -, hhint, rfl⟩
      exact ⟨h, hint, hhint, rfl⟩
  names_distinct := hs.named.names_distinct
  one_object h hsome := by
    obtain ⟨hint, hhint⟩ := Option.isSome_iff_exists.mp hsome
    refine ⟨hint.objptr, hs.linked.attached hhint, ?_⟩
    rintro o ⟨obj, hobj, hmem⟩
    obtain ⟨hint', hhint', rfl⟩ := hs.linked.owned hobj h hmem
    rw [hhint] at hhint'
    cases hhint'
    rfl
  once := hs.linked.hints_nodup
  one_key h hsome := by
    obtain ⟨key, hmem⟩ := (hs.keyed.hint_iff h).mpr hsome
    refine ⟨key, hs.keyed.lookup_hint_iff.mpr hmem, fun key' hkey' => ?_⟩
    exact (hs.keyed.tracked.entry_unique (hs.keyed.lookup_hint_iff.mp hkey') hmem).2
  no_others h hnone := by
    constructor
    · rintro o ⟨obj, hobj, hmem⟩
      obtain ⟨hint, hhint, -⟩ := hs.linked.owned hobj h hmem
      rw [hnone] at hhint
      cases hhint
    · intro key hkey
      have hsome := (hs.keyed.hint_iff h).mp ⟨key, hs.keyed.lookup_hint_iff.mp hkey⟩
      simp [hnone] at hsome
  loop_ends hobj := hs.automatic_name_isSome (hs.linked.fits hobj)
  destroys hint_region_id := by
    cases hfound : s.opaque_map_lookup_hint (OPAQUE_GET_DATA_KEY hint_region_id) with
    | none => simp [PWR_AppHintDestroy, hfound]
    | some h =>
      obtain ⟨hint, obj, -, -, heq⟩ := hs.PWR_AppHintDestroy_eq hfound
      rw [heq]
      rfl
  deletes o hsome := by
    obtain ⟨obj, hobj⟩ := Option.isSome_iff_exists.mp hsome
    obtain ⟨s', live', heq, -⟩ := hs.del_object_eq hobj
    rw [heq]
    rfl

section Step

variable [SortedSequence] {reply : Reply} {new : Alloc}

omit [SortedSequence] in
theorem Sound.counted (hs : s.Sound live) (hintunique : UInt64) : ({ s with hintunique } : AppHints).Sound live :=
  ⟨⟨hs.keyed.tracked, hs.keyed.hint_iff, hs.keyed.object_iff⟩,
    ⟨hs.linked.owned, hs.linked.attached, hs.linked.hints_sorted, hs.linked.hints_nodup, hs.linked.fits⟩,
    ⟨hs.named.names_sorted, hs.named.names_nodup, hs.named.names_iff, hs.named.names_distinct⟩⟩

theorem new_hint_cases (h : new_hint obj hint new s = some (reply, s')) :
    reply.status = PWR_RET_SUCCESS ∧ ∃ key opaque_map,
      opaque_map_insert .HINT new.address new.draws s.opaque_map = some (key, [], opaque_map) ∧
        s' = { s.with_hint obj hint new.address key with opaque_map } := by
  unfold new_hint at h
  split at h
  · next key opaque_map hinsert =>
    cases h
    exact ⟨rfl, key, opaque_map, hinsert, rfl⟩
  · cases h

/-- A creation is refused and changes nothing, or makes a hint with a name not in use. -/
theorem Sound.create_cases (hs : s.Sound live) {object : UInt64} {name : Option (List Char)} {given : Bool}
    {value level : Int} (h : s.PWR_AppHintCreate object name given value level new = some (reply, s')) :
    (reply.status = PWR_RET_FAILURE ∧ s' = s) ∨ ∃ obj hint hintunique, s.objects.lookup hint.objptr = some obj ∧
      hint.name ∉ s.hintnames ∧ new_hint obj hint new { s with hintunique } = some (reply, s') := by
  have hrefused : ∀ {faults : List String}, some (refused faults, s) = some (reply, s') →
      reply.status = PWR_RET_FAILURE ∧ s' = s := by
    intro faults heq
    cases heq
    exact ⟨rfl, rfl⟩
  unfold PWR_AppHintCreate at h
  split at h
  · exact Or.inl (hrefused h)
  split at h
  · exact Or.inl (hrefused h)
  split at h
  · exact Or.inl (hrefused h)
  split at h
  · exact Or.inl (hrefused h)
  · next objptr hobject =>
    split at h
    · exact Or.inl (hrefused h)
    · next ctxptr hcontext =>
      split at h
      · cases h
      split at h
      · cases h
      · next obj hobj =>
        split at h
        · split at h
          · cases h
          · next name hintunique hname =>
            refine Or.inr ⟨obj, _, hintunique, hobj, ?_, h⟩
            exact notMem_of_unused_name hs.named.names_sorted hname
        · next name =>
          split at h
          · exact Or.inl (hrefused h)
          · next hfree =>
            refine Or.inr ⟨obj, _, s.hintunique, hobj, ?_, h⟩
            exact SortedSequence.notMem_of_lookup_none _sortnames_consistent hs.named.names_sorted
              (strcmp_eq_zero.mpr rfl) (Option.not_isSome_iff_eq_none.mp hfree)

/-- What is gone from the hints in a state whose tables agree is gone from the tables. -/
theorem Sound.gone (hs' : s'.Sound live) (hname : ∀ {h' hint'}, s'.hints.lookup h' = some hint' →
    s.hints.lookup h' = some hint') (hs : s.Named) (hhint : s.hints.lookup h = some hint)
    (hnone : s'.hints.lookup h = none) :
    s'.hints.lookup h = none ∧ hint.name ∉ s'.hintnames ∧ (∀ o, ¬ s'.Attached h o) ∧
      ∀ key, s'.opaque_map_lookup_hint key ≠ some h := by
  refine ⟨hnone, fun hmem => ?_, hs'.kept.no_others h hnone⟩
  obtain ⟨h', hint', hhint', heq⟩ := (hs'.named.names_iff _).mp hmem
  obtain rfl := hs.names_distinct (hname hhint') hhint heq
  rw [hnone] at hhint'
  cases hhint'

/-- A call that changes nothing and destroys nothing. -/
theorem Sound.upheld_self (hs : s.Sound live) {call : HintCall} (hremoves : ∀ h, ¬ s.Removes call h) :
    Upheld s (call, reply) s where
  before := hs.kept
  after := hs.kept
  refused _ := rfl
  removed h _ hremoved := absurd hremoved (hremoves h)
  stays _ _ _ hhint := hhint

/-- A creation upholds the tables exactly when it draws no zero. -/
theorem Sound.create_step (hs : s.Sound live) {object : UInt64} {name : Option (List Char)} {given : Bool}
    {value level : Int} (hfresh : new.address ∉ values s.opaque_map.table)
    (h : s.PWR_AppHintCreate object name given value level new = some (reply, s'))
    (hdraws : reply.status ≠ PWR_RET_SUCCESS → new.draws = []) :
    (0 ∉ new.draws → ∃ live', s'.Sound live') ∧
      (Upheld s (.create object name given value level new, reply) s' ↔ 0 ∉ new.draws) := by
  obtain ⟨hstatus, rfl⟩ | ⟨obj, hint, hintunique, hobj, hname, hnew⟩ := hs.create_cases h
  · have hno : 0 ∉ new.draws := by
      rw [hdraws (by rw [hstatus]; decide)]
      exact List.not_mem_nil
    exact ⟨fun _ => ⟨live, hs⟩, iff_of_true (hs.upheld_self fun _ => id) hno⟩
  obtain ⟨hstatus, key, opaque_map, hinsert, rfl⟩ := new_hint_cases hnew
  obtain ⟨hkey, hlt, hfree, rfl⟩ := opaque_map_insert_eq hinsert
  have hrecords : ∀ l ∈ live, l.record ≠ new.address := by
    intro l hl hrecord
    exact hfresh (mem_values.mpr ⟨l.key, (hs.keyed.tracked.table _ _).mpr ⟨l, hl, rfl, hrecord⟩⟩)
  by_cases hzero : 0 ∈ new.draws
  · refine ⟨fun hno => absurd hzero hno, iff_of_false (fun hupheld => ?_) (fun hno => hno hzero)⟩
    -- the new hint is found under its key and under zero
    have hlive : ((({ s with hintunique } : AppHints).with_hint obj hint new.address key).hints.lookup
        new.address).isSome := by
      rw [lookup_hints_with_hint, if_pos rfl]
      rfl
    obtain ⟨k, -, honly⟩ := hupheld.after.one_key new.address hlive
    have hunder : ∀ k', k' = key ∨ k' = 0 → k' = k := by
      intro k' hk'
      refine honly k' ?_
      rcases hk' with rfl | rfl
      · simp [opaque_map_lookup_hint, opaque_map_lookup_type, opaque_map_lookup]
      · simp [opaque_map_lookup_hint, opaque_map_lookup_type, opaque_map_lookup, hzero, hs.keyed.tracked.zero_free,
          Ne.symm hkey]
    exact hkey ((hunder key (Or.inl rfl)).trans (hunder 0 (Or.inr rfl)).symm)
  · have hsound := (hs.counted hintunique).with_hint hobj hrecords hname hkey hlt hfree
    rw [if_neg fun hand => hzero hand.1]
    refine ⟨fun _ => ⟨_, hsound⟩, iff_of_true ?_ hzero⟩
    refine ⟨hs.kept, hsound.kept, fun hne => absurd hstatus hne, fun _ _ hremoved => absurd hremoved id, ?_⟩
    intro h' hint' _ hhint'
    refine (lookup_hints_with_hint).trans ?_
    rw [if_neg, hhint']
    rintro rfl
    exact hrecords _ (hs.keyed.hint_entry hhint') rfl

theorem Sound.destroy_step (hs : s.Sound live) {hint_region_id : UInt64}
    (h : s.PWR_AppHintDestroy hint_region_id = some (reply, s')) :
    (∃ live', s'.Sound live') ∧ Upheld s (.destroy hint_region_id, reply) s' := by
  cases hfound : s.opaque_map_lookup_hint (OPAQUE_GET_DATA_KEY hint_region_id) with
  | none =>
    obtain ⟨rfl, rfl⟩ : refused ["hint not found!"] = reply ∧ s = s' := by
      simpa [PWR_AppHintDestroy, hfound] using h
    refine ⟨⟨live, hs⟩, hs.upheld_self fun h' hremoved => ?_⟩
    rw [Removes, hfound] at hremoved
    cases hremoved
  | some h' =>
    obtain ⟨hint, obj, hhint, hobj, heq⟩ := hs.PWR_AppHintDestroy_eq hfound
    rw [heq] at h
    cases h
    have hsound := hs.without hobj hhint
    refine ⟨⟨_, hsound⟩, hs.kept, hsound.kept, fun hne => absurd rfl hne, ?_, ?_⟩
    · intro h₁ hint₁ hremoved hhint₁
      obtain rfl : h' = h₁ := Option.some.inj (hfound.symm.trans hremoved)
      refine hsound.gone (fun hhint' => (lookup_hints_without.mp hhint').2) hs.named hhint₁ ?_
      rw [AppHints.without, lookup_erase_eq_ite, if_pos rfl]
    · intro h₁ hint₁ hremains hhint₁
      refine lookup_hints_without.mpr ⟨?_, hhint₁⟩
      rintro rfl
      exact hremains hfound

theorem Sound.del_object_step (hs : s.Sound live) (h : del_object o s = some s') :
    (∃ live', s'.Sound live') ∧ Upheld s (.del_object o, { status := PWR_RET_SUCCESS }) s' := by
  cases hobj : s.objects.lookup o with
  | none => simp [del_object, hobj] at h
  | some obj =>
    obtain ⟨s₁, live₁, heq, hsound, -, hhints⟩ := hs.del_object_eq hobj
    obtain rfl : s₁ = s' := Option.some.inj (heq.symm.trans h)
    refine ⟨⟨_, hsound⟩, hs.kept, hsound.kept, fun hne => absurd rfl hne, ?_, ?_⟩
    · rintro h' hint' ⟨obj', hobj', hmem⟩ hhint'
      rw [hobj] at hobj'
      cases hobj'
      refine hsound.gone (fun {h₂ hint₂} hhint₂ => ?_) hs.named hhint' (by rw [hhints, if_pos hmem])
      rw [hhints] at hhint₂
      split at hhint₂
      · cases hhint₂
      · exact hhint₂
    · intro h' hint' hremains hhint'
      rw [hhints, if_neg fun hmem => hremains ⟨obj, hobj, hmem⟩, hhint']

/-- A call keeps the three tables in agreement exactly where it draws no zero. -/
theorem Sound.step (hs : s.Sound live) {step : HintCall × Reply} (hstep : HintStep s step s') :
    (DrawsNoZero step.1 → ∃ live', s'.Sound live') ∧ (Upheld s step s' ↔ DrawsNoZero step.1) := by
  obtain ⟨call, reply⟩ := step
  obtain ⟨hfresh, hperform, hdraws⟩ := hstep
  cases call with
  | create object name given value level new => exact hs.create_step hfresh hperform hdraws
  | destroy hint_region_id =>
    obtain ⟨hsound, hupheld⟩ := hs.destroy_step hperform
    exact ⟨fun _ => hsound, iff_of_true hupheld List.not_mem_nil⟩
  | del_object objptr =>
    obtain ⟨s₁, hs₁, heq⟩ := Option.map_eq_some_iff.mp hperform
    cases heq
    obtain ⟨hsound, hupheld⟩ := hs.del_object_step hs₁
    exact ⟨fun _ => hsound, iff_of_true hupheld List.not_mem_nil⟩

/-- In every run of creations, destructions and object destructions in a context without hints, the
three tables agree before and after every call, refused creations change nothing and destroyed
hints leave nothing behind, if and only if no number drawn for a key is zero. -/
theorem hint_tables_kept_iff (s : AppHints) (hbegins : s.Begins) (run : List ((HintCall × Reply) × AppHints))
    (hrun : EachStep HintStep s run) :
    s.Kept ∧ (EachStep Upheld s run ↔ EachStep (fun _ step _ => DrawsNoZero step.1) s run) := by
  obtain ⟨live, hsound⟩ := hbegins.sound
  refine ⟨hsound.kept, hrun.iff_of_invariant (I := fun s => ∃ live, s.Sound live) ⟨live, hsound⟩ ?_ ?_⟩
  · rintro s step s' hstep ⟨live, hs⟩
    exact (hs.step hstep).1
  · rintro s step s' hstep ⟨live, hs⟩
    exact (hs.step hstep).2

end Step

section Runs

attribute [local instance] SortedSequence.from_front

/-- A context with one object. -/
def one_object : AppHints where
  opaque_map :=
    { table := ((∅ : HashTable UInt64 Nat).insert 5 1).insert 6 2
      refs := Function.update (Function.update (fun _ => {}) 1 { type := .CONTEXT, key := 5 }) 2
        { type := .OBJECT, key := 6 } }
  context := 1
  objects := (∅ : HashTable Nat HintedObj).insert 2 { name := ['n'] }

theorem one_object_begins : one_object.Begins where
  hints := rfl
  hintnames := rfl
  objects {o obj} hobj := by
    rw [one_object, lookup_insert_eq_ite] at hobj
    split at hobj
    · cases hobj
      exact ⟨rfl, fits_of_length (by decide)⟩
    · simp at hobj
  keys := by
    have hcontext : Handles.Tracked
        { map := { table := (∅ : HashTable UInt64 Nat).insert 5 1
                   refs := Function.update (fun _ => {}) 1 { type := .CONTEXT, key := 5 } }
          live := [⟨1, .CONTEXT, 5⟩] } :=
      Handles.empty_tracked.insert .CONTEXT (by decide) (by decide) (by decide) (by decide)
    refine ⟨[⟨2, .OBJECT, 6⟩, ⟨1, .CONTEXT, 5⟩], ?_, by decide, fun o => ?_⟩
    · exact hcontext.insert .OBJECT (by decide) (by decide) (by decide) (by decide)
    · simp only [one_object, lookup_insert_eq_ite]
      split <;> simp [*]

/-- Two hints, the first with an automatic name, a name that is taken, and what is left after
the first hint and the object are destroyed. -/
def two_hints : List HintCall :=
  [.create (OPAQUE_GENERATE 5 6) none true 0 0 ⟨10, [9]⟩,
    .create (OPAQUE_GENERATE 5 6) (some ['a']) true 3 2 ⟨11, [5, 8]⟩,
    .create (OPAQUE_GENERATE 5 6) (some ['a']) true 0 0 ⟨12, []⟩, .destroy (OPAQUE_GENERATE 5 9), .del_object 2]

/-- A hint is entered after a draw of zero. -/
def zero_drawn : List HintCall := [.create (OPAQUE_GENERATE 5 6) (some ['a']) true 0 0 ⟨10, [0, 9]⟩]

theorem hint_steps_of_fresh {s : AppHints} (calls : List HintCall)
    (hfresh : EachStep (fun s step _ => s.Fresh step.1 ∧ (step.2.status ≠ PWR_RET_SUCCESS → step.1.draws = [])) s
      (run_calls perform calls s)) : EachStep HintStep s (run_calls perform calls s) :=
  (hfresh.and (eachStep_run_calls perform s calls)).imp fun _ _ _ h => ⟨h.1.1, h.2, h.1.2⟩

theorem hint_tables_kept_iff_two_hints :
    (run_calls perform two_hints one_object).length = 5 ∧
      EachStep Upheld one_object (run_calls perform two_hints one_object) := by
  refine ⟨by decide +kernel, ?_⟩
  refine (hint_tables_kept_iff one_object one_object_begins _ (hint_steps_of_fresh two_hints (by decide +kernel))).2.mpr ?_
  exact (eachStep_of_actions (A := fun step : HintCall × Reply => DrawsNoZero step.1) (by decide +kernel)).imp
    fun _ _ _ h => h

/-- After a draw of zero a hint has two keys. -/
theorem hint_tables_not_kept : ¬ ∀ s : AppHints, s.Begins → ∀ run : List ((HintCall × Reply) × AppHints),
    EachStep HintStep s run → EachStep Upheld s run := by
  intro hclaim
  have hsteps := hint_steps_of_fresh (s := one_object) zero_drawn (by decide +kernel)
  have hupheld := hclaim one_object one_object_begins _ hsteps
  have hkept : ∀ x ∈ run_calls perform zero_drawn one_object, x.2.Kept :=
    forall_mem_iff_eachStep.mpr (hupheld.imp fun _ _ _ h => h.after)
  have htwo : ∃ x ∈ run_calls perform zero_drawn one_object, (x.2.hints.lookup 10).isSome ∧
      x.2.opaque_map_lookup_hint 9 = some 10 ∧ x.2.opaque_map_lookup_hint 0 = some 10 := by decide +kernel
  obtain ⟨x, hx, hlive, hnine, hzero⟩ := htwo
  obtain ⟨key, -, honly⟩ := (hkept x hx).one_key 10 hlive
  exact absurd ((honly 9 hnine).trans (honly 0 hzero).symm) (by decide)

end Runs

end AppHints

end pwrapi
