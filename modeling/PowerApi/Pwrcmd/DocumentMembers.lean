import PowerApi.Pwrcmd.Documents

open cson

namespace pwrapi.pwrcmd

variable {D : Type} {h : Heap Bytes D} {kvp : List (Bytes × Ref)} {members : List (Bytes × Entry D)} {key : Bytes}
  {f : Option (Entry D) → Entry D} {entry : Entry D} {r v : Ref}

/-! Entries in memory -/

/-- A change of another container leaves the entry as it is. -/
theorem Entry.At.set (hat : entry.At h r) {a : Ref} {c : CsonValue Bytes D} (hne : a ≠ r)
    (hstring : ∀ s, h[a]? ≠ some (.STRING s)) : entry.At (h.set a c) r := by
  have hcell : ∀ {b : Ref} {c' : CsonValue Bytes D}, a ≠ b → h[b]? = some c' → (h.set a c)[b]? = some c' := fun hb hc => by
    rw [List.getElem?_set_ne hb, hc]
  cases entry with
  | messages list =>
    obtain ⟨refs, hnode, hrefs⟩ := hat
    refine ⟨refs, hcell hne hnode, hrefs.imp fun b s hc => hcell ?_ hc⟩
    rintro rfl
    exact hstring s hc
  | _ => exact hcell hne hat

/-- An entry is not an object. -/
theorem Entry.At.ne_object (hat : entry.At h r) {a : Ref} {kvp : List (Bytes × Ref)} (ha : h[a]? = some (.OBJECT kvp)) : a ≠ r := by
  rintro rfl
  cases entry with
  | messages list =>
    obtain ⟨refs, hnode, -⟩ := hat
    cases ha.symm.trans hnode
  | _ => cases ha.symm.trans hat

theorem Entry.At.lt (hat : entry.At h r) : r < h.length := by
  cases entry with
  | messages list =>
    obtain ⟨refs, hnode, -⟩ := hat
    exact (List.getElem?_eq_some_iff.mp hnode).1
  | _ => exact (List.getElem?_eq_some_iff.mp hat).1

theorem Entry.At.denotes (hat : entry.At h r) : Denotes h r entry.value := by
  cases entry with
  | messages list =>
    obtain ⟨refs, hnode, hrefs⟩ := hat
    refine ⟨refs, hnode, ?_⟩
    clear hnode
    induction hrefs with
    | nil => trivial
    | cons hc _ ih => exact ⟨hc, ih⟩
  | _ => exact hat

/-! Members -/

/-- The members in memory have the keys and the entries of the document. -/
abbrev Holds (h : Heap Bytes D) : List (Bytes × Ref) → List (Bytes × Entry D) → Prop :=
  List.Forall₂ fun a b => a.1 = b.1 ∧ b.2.At h a.2

theorem Holds.imp {h' : Heap Bytes D} (hholds : Holds h kvp members)
    (hkeep : ∀ c ∈ kvp.map Prod.snd, ∀ entry : Entry D, entry.At h c → entry.At h' c) : Holds h' kvp members := by
  induction hholds with
  | nil => exact .nil
  | cons hmember _ ih =>
    rw [List.map_cons, List.forall_mem_cons] at hkeep
    exact .cons ⟨hmember.1, hkeep.1 _ hmember.2⟩ (ih hkeep.2)

theorem Holds.denotes (hholds : Holds h kvp members) :
    denotes_members h kvp (members.map fun member => (member.1, member.2.value)) := by
  induction hholds with
  | nil => trivial
  | cons hmember _ ih => exact ⟨hmember.1, hmember.2.denotes, ih⟩

/-- The key is found in both or in neither. -/
theorem Holds.find_none (hholds : Holds h kvp members) :
    (kvp.find? fun member => member.1 = key) = none ↔ (members.any fun member => member.1 = key) = false := by
  induction hholds with
  | nil => simp
  | cons hmember _ ih =>
    rw [List.find?_cons, List.any_cons, hmember.1]
    split
    · next heq => simp_all
    · next hne => simp_all

theorem Holds.snoc (hholds : Holds h kvp members) (hat : entry.At h v) : Holds h (kvp ++ [(key, v)]) (members ++ [(key, entry)]) := by
  induction hholds with
  | nil => exact .cons ⟨rfl, hat⟩ .nil
  | cons hmember _ ih => exact .cons hmember ih

theorem put_of_none (hnone : (members.any fun member => member.1 = key) = false) : put key f members = members ++ [(key, f none)] := by
  induction members with
  | nil => rfl
  | cons member members ih =>
    rw [List.any_cons, Bool.or_eq_false_iff, decide_eq_false_iff_not] at hnone
    rw [put, if_neg hnone.1, ih hnone.2]
    rfl

/-- The member with the key changes, and the others do not. -/
theorem Holds.put {h' : Heap Bytes D} {found : Bytes × Ref} (hholds : Holds h kvp members)
    (hfind : (kvp.find? fun member => member.1 = key) = some found) (hnodup : (kvp.map Prod.snd).Nodup)
    (hkeep : ∀ c ∈ kvp.map Prod.snd, c ≠ found.2 → ∀ entry : Entry D, entry.At h c → entry.At h' c)
    (hnew : ∀ entry, (key, entry) ∈ members → entry.At h found.2 → (f (some entry)).At h' v) :
    Holds h' (kvp_replace key v kvp) (pwrcmd.put key f members) := by
  induction hholds with
  | nil => cases hfind
  | @cons a b kvp members hmember hrest ih =>
    rw [List.map_cons, List.nodup_cons] at hnodup
    rw [List.find?_cons] at hfind
    by_cases hkey : a.1 = key
    · rw [decide_eq_true hkey] at hfind
      obtain rfl := Option.some.inj hfind
      rw [kvp_replace, if_pos hkey, pwrcmd.put, if_pos (hmember.1 ▸ hkey)]
      have hb : (key, b.2) = b := by rw [← hkey, hmember.1]
      refine .cons ⟨rfl, hnew b.2 (hb ▸ List.mem_cons_self) hmember.2⟩ (Holds.imp hrest fun c hc entry hat => ?_)
      refine hkeep c (List.mem_cons_of_mem _ hc) ?_ entry hat
      rintro rfl
      exact hnodup.1 hc
    · rw [decide_eq_false hkey] at hfind
      rw [kvp_replace, if_neg hkey, pwrcmd.put, if_neg (hmember.1 ▸ hkey)]
      have hfound : found.2 ∈ kvp.map Prod.snd := List.mem_map_of_mem (List.mem_of_find?_eq_some hfind)
      have hne : a.2 ≠ found.2 := by
        intro heq
        exact hnodup.1 (heq ▸ hfound)
      refine .cons ⟨hmember.1, hkeep a.2 List.mem_cons_self hne b.2 hmember.2⟩ (ih hfind hnodup.2 ?_ ?_)
      · exact fun c hc hcne => hkeep c (List.mem_cons_of_mem _ hc) hcne
      · exact fun entry hentry => hnew entry (List.mem_cons_of_mem _ hentry)

theorem kvp_replace_self {found : Bytes × Ref} (hfind : (kvp.find? fun member => member.1 = key) = some found) :
    kvp_replace key found.2 kvp = kvp := by
  induction kvp with
  | nil => rfl
  | cons a kvp ih =>
    rw [List.find?_cons] at hfind
    by_cases hkey : a.1 = key
    · rw [decide_eq_true hkey] at hfind
      obtain rfl := Option.some.inj hfind
      rw [kvp_replace, if_pos hkey, ← hkey]
    · rw [decide_eq_false hkey] at hfind
      rw [kvp_replace, if_neg hkey, ih hfind]

theorem mem_kvp_replace {c : Ref} (hc : c ∈ (kvp_replace key v kvp).map Prod.snd) : c = v ∨ c ∈ kvp.map Prod.snd := by
  induction kvp with
  | nil => cases hc
  | cons a kvp ih =>
    rw [kvp_replace] at hc
    split at hc
    · rcases List.mem_cons.mp hc with rfl | hc
      · exact .inl rfl
      · exact .inr (List.mem_cons_of_mem _ hc)
    · rcases List.mem_cons.mp hc with rfl | hc
      · exact .inr List.mem_cons_self
      · exact (ih hc).imp id (List.mem_cons_of_mem _)

/-- The value that was there before is there no longer. -/
theorem kvp_replace_nodup {found : Bytes × Ref} (hfind : (kvp.find? fun member => member.1 = key) = some found)
    (hnodup : (kvp.map Prod.snd).Nodup) (hnew : v ∉ kvp.map Prod.snd) :
    ((kvp_replace key v kvp).map Prod.snd).Nodup ∧ found.2 ∉ (kvp_replace key v kvp).map Prod.snd := by
  induction kvp with
  | nil => cases hfind
  | cons a kvp ih =>
    rw [List.map_cons, List.nodup_cons] at hnodup
    rw [List.map_cons, List.mem_cons, not_or] at hnew
    rw [List.find?_cons] at hfind
    by_cases hkey : a.1 = key
    · rw [decide_eq_true hkey] at hfind
      obtain rfl := Option.some.inj hfind
      rw [kvp_replace, if_pos hkey, List.map_cons, List.nodup_cons, List.mem_cons, not_or]
      exact ⟨⟨hnew.2, hnodup.2⟩, fun heq => hnew.1 heq.symm, hnodup.1⟩
    · rw [decide_eq_false hkey] at hfind
      obtain ⟨hih, hfound⟩ := ih hfind hnodup.2 hnew.2
      have hmem : found.2 ∈ kvp.map Prod.snd := List.mem_map_of_mem (List.mem_of_find?_eq_some hfind)
      rw [kvp_replace, if_neg hkey, List.map_cons, List.nodup_cons, List.mem_cons, not_or]
      refine ⟨⟨fun hmem' => ?_, hih⟩, fun heq => ?_, hfound⟩
      · rcases mem_kvp_replace hmem' with heq | hmem'
        · exact hnew.1 heq.symm
        · exact hnodup.1 hmem'
      · exact hnodup.1 (heq ▸ hmem)

end pwrapi.pwrcmd
