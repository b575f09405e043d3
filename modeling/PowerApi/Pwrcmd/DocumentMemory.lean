import PowerApi.Pwrcmd.DocumentMembers

open cson

namespace pwrapi.pwrcmd

variable {D : Type} {h : Heap Bytes D} {m : Memory Bytes D} {c r v x : Ref} {kvp : List (Bytes × Ref)}
  {members : List (Bytes × Entry D)} {key : Bytes} {entry : Entry D} {n : ℕ}

/-! What an address holds -/

theorem mem_value_refs_string {s : Bytes} (hcell : h[r]? = some (.STRING s)) (hx : x ∈ value_refs h n r) : x = r := by
  cases n with
  | zero => cases hx
  | succ n =>
    rw [value_refs, hcell] at hx
    exact List.mem_singleton.mp hx

theorem Entry.At.mem_value_refs (hat : entry.At h r) (hx : x ∈ value_refs h n r) :
    x = r ∨ ∃ list, h[r]? = some (.ARRAY list) ∧ x ∈ list := by
  cases n with
  | zero => cases hx
  | succ n =>
    cases entry with
    | messages list =>
      obtain ⟨refs, hnode, hrefs⟩ := hat
      rw [value_refs, hnode] at hx
      refine (List.mem_cons.mp hx).imp id fun hx => ⟨refs, hnode, ?_⟩
      obtain ⟨a, ha, hxa⟩ := List.mem_flatMap.mp hx
      obtain ⟨i, hi, rfl⟩ := List.mem_iff_getElem.mp ha
      have hcell := hrefs.get hi (hrefs.length_eq ▸ hi)
      rw [List.get_eq_getElem] at hcell
      rw [mem_value_refs_string hcell hxa]
      exact ha
    | _ =>
      rw [value_refs, show h[r]? = some _ from hat] at hx
      exact .inl (List.mem_singleton.mp hx)

/-- The values of the members, and the messages in them. -/
def Owned (h : Heap Bytes D) (kvp : List (Bytes × Ref)) (x : Ref) : Prop :=
  ∃ r ∈ kvp.map Prod.snd, x = r ∨ ∃ list, h[r]? = some (.ARRAY list) ∧ x ∈ list

theorem Holds.exists_at (hholds : Holds h kvp members) (hr : r ∈ kvp.map Prod.snd) : ∃ entry : Entry D, entry.At h r := by
  induction hholds with
  | nil => cases hr
  | @cons a b kvp members hmember _ ih =>
    rcases List.mem_cons.mp hr with rfl | hr
    · exact ⟨b.2, hmember.2⟩
    · exact ih hr

theorem Holds.mem_value_refs (hholds : Holds h kvp members) (hnode : h[c]? = some (.OBJECT kvp)) (hx : x ∈ value_refs h n c) :
    x = c ∨ Owned h kvp x := by
  cases n with
  | zero => cases hx
  | succ n =>
    rw [value_refs, hnode] at hx
    refine (List.mem_cons.mp hx).imp id fun hx => ?_
    obtain ⟨member, hmember, hx⟩ := List.mem_flatMap.mp hx
    have hr := List.mem_map_of_mem (f := Prod.snd) hmember
    obtain ⟨entry, hat⟩ := hholds.exists_at hr
    exact ⟨member.2, hr, hat.mem_value_refs hx⟩

theorem Owned.lt (howned : Owned h kvp x) (hholds : Holds h kvp members) : x < h.length := by
  obtain ⟨r, hr, hx⟩ := howned
  obtain ⟨entry, hat⟩ := hholds.exists_at hr
  rcases hx with rfl | ⟨list, hnode, hx⟩
  · exact hat.lt
  · cases entry with
    | messages texts =>
      obtain ⟨refs, hrefs, hall⟩ := hat
      obtain rfl : list = refs := by
        rw [hrefs] at hnode
        cases hnode
        rfl
      obtain ⟨i, hi, rfl⟩ := List.mem_iff_getElem.mp hx
      have hcell := hall.get hi (hall.length_eq ▸ hi)
      exact (List.getElem?_eq_some_iff.mp hcell).1
    | _ => cases hnode.symm.trans hat

theorem mem_put {f : Option (Entry D) → Entry D} {member : Bytes × Entry D} (hmember : member ∈ put key f members) :
    member ∈ members ∨ member.1 = key ∧ ∃ entry, member.2 = f entry := by
  induction members with
  | nil =>
    rw [put, List.mem_singleton] at hmember
    exact .inr ⟨by rw [hmember], none, by rw [hmember]⟩
  | cons a members ih =>
    rw [put] at hmember
    split at hmember
    · rcases List.mem_cons.mp hmember with rfl | hmember
      · exact .inr ⟨rfl, some a.2, rfl⟩
      · exact .inl (List.mem_cons_of_mem _ hmember)
    · rcases List.mem_cons.mp hmember with rfl | hmember
      · exact .inl List.mem_cons_self
      · exact (ih hmember).imp (List.mem_cons_of_mem _) id

/-- Only messages are an array. -/
theorem Entry.At.is_messages {list : List Ref} (hat : entry.At h r) (hnode : h[r]? = some (.ARRAY list)) : entry.is_messages = true := by
  cases entry with
  | messages texts => rfl
  | _ => cases hnode.symm.trans hat

theorem Holds.find_some {found : Bytes × Ref} (hholds : Holds h kvp members)
    (hfind : (kvp.find? fun member => member.1 = key) = some found) :
    ∃ entry : Entry D, (key, entry) ∈ members ∧ entry.At h found.2 := by
  induction hholds with
  | nil => cases hfind
  | @cons a b kvp members hmember _ ih =>
    rw [List.find?_cons] at hfind
    by_cases hkey : a.1 = key
    · rw [decide_eq_true hkey] at hfind
      obtain rfl := Option.some.inj hfind
      refine ⟨b.2, ?_, hmember.2⟩
      rw [← hkey, hmember.1]
      exact List.mem_cons_self
    · rw [decide_eq_false hkey] at hfind
      obtain ⟨entry, hentry, hat⟩ := ih hfind
      exact ⟨entry, List.mem_cons_of_mem _ hentry, hat⟩

/-- The document is the object at the address, and nothing of it was freed. -/
structure Stands (m : Memory Bytes D) (c : Ref) (kvp : List (Bytes × Ref)) (members : List (Bytes × Entry D)) : Prop where
  node : m.heap[c]? = some (.OBJECT kvp)
  holds : Holds m.heap kvp members
  nodup : (kvp.map Prod.snd).Nodup
  apart : ∀ r ∈ kvp.map Prod.snd, ∀ list, m.heap[r]? = some (.ARRAY list) → ∀ x ∈ list, x ∉ kvp.map Prod.snd
  freed : ∀ x ∈ m.freed, x < m.heap.length
  live : c ∉ m.freed
  owned : ∀ x, Owned m.heap kvp x → x ∉ m.freed
  texts : ∀ member ∈ members, member.2.is_messages → ∃ err, member.1 = messages_key err

namespace Stands

variable (hstands : Stands m c kvp members)

include hstands

theorem ne (hr : r ∈ kvp.map Prod.snd) : c ≠ r := by
  obtain ⟨entry, hat⟩ := hstands.holds.exists_at hr
  exact hat.ne_object hstands.node

theorem get : m.get c = some (.OBJECT kvp) := by
  rw [Memory.get, if_neg hstands.live, hstands.node]

theorem mem_value_refs (hx : x ∈ value_refs m.heap n c) : x ∉ m.freed := by
  rcases hstands.holds.mem_value_refs hstands.node hx with rfl | howned
  · exact hstands.live
  · exact hstands.owned x howned

/-- The document can be freed, with all its members. -/
theorem free : ∃ m', m.cson_value_free c = some m' ∧ m'.heap = m.heap ∧ (∀ x ∈ m'.freed, x < m'.heap.length) ∧
    (∀ r ∈ kvp.map Prod.snd, r ∈ m'.freed) ∧ ∀ x ∈ m.freed, x ∈ m'.freed := by
  have hlive : m.live c = true := by
    rw [Memory.live, List.all_eq_true]
    exact fun x hx => decide_eq_true (hstands.mem_value_refs hx)
  have hlt := (List.getElem?_eq_some_iff.mp hstands.node).1
  refine ⟨{ m with freed := value_refs m.heap m.heap.length c ++ m.freed }, by rw [Memory.cson_value_free, if_pos hlive], rfl,
    fun x hx => ?_, fun r hr => ?_, fun x hx => ?_⟩
  · rcases List.mem_append.mp hx with hx | hx
    · rcases hstands.holds.mem_value_refs hstands.node hx with rfl | howned
      · exact hlt
      · exact howned.lt hstands.holds
    · exact hstands.freed x hx
  · refine List.mem_append_left _ ?_
    obtain ⟨entry, hat⟩ := hstands.holds.exists_at hr
    -- There are two addresses at least, so the members are within the fuel.
    obtain ⟨n, hn⟩ : ∃ n, m.heap.length = n + 2 := by
      have hne := Nat.lt_or_gt_of_ne (hstands.ne hr)
      have hrlt := Nat.succ_le_of_lt hat.lt
      exact ⟨m.heap.length - 2, by omega⟩
    rw [hn, value_refs, hstands.node]
    obtain ⟨member, hmember, rfl⟩ := List.mem_map.mp hr
    refine List.mem_cons_of_mem _ (List.mem_flatMap.mpr ⟨member, hmember, ?_⟩)
    rw [value_refs]
    exact List.mem_cons_self
  · exact List.mem_append_right _ hx

/-- What happens elsewhere leaves the document as it is. -/
theorem frame {m' : Memory Bytes D} (hfreed : m'.freed = m.freed) (hlength : m.heap.length ≤ m'.heap.length)
    (hcells : ∀ a < m.heap.length, m'.heap[a]? = m.heap[a]?) : Stands m' c kvp members := by
  have hlt : ∀ {a : Ref} {cell : CsonValue Bytes D}, m.heap[a]? = some cell → a < m.heap.length := fun h =>
    (List.getElem?_eq_some_iff.mp h).1
  have hback : ∀ r ∈ kvp.map Prod.snd, m'.heap[r]? = m.heap[r]? := fun r hr => by
    obtain ⟨entry, hat⟩ := hstands.holds.exists_at hr
    exact hcells r hat.lt
  refine ⟨(hcells c (hlt hstands.node)).trans hstands.node, hstands.holds.imp fun a ha entry hat => ?_, hstands.nodup,
    fun r hr list hlist => hstands.apart r hr list (hback r hr ▸ hlist), fun x hx => ?_, hfreed ▸ hstands.live, ?_, hstands.texts⟩
  · cases entry with
    | messages list =>
      obtain ⟨refs, hnode, hrefs⟩ := hat
      refine ⟨refs, (hcells a (hlt hnode)).trans hnode, hrefs.imp fun b s hb => (hcells b (hlt hb)).trans hb⟩
    | _ => exact (hcells a (hlt hat)).trans hat
  · exact (hstands.freed x (hfreed ▸ hx)).trans_le hlength
  · rintro x ⟨r, hr, hx⟩
    rw [hfreed]
    rw [hback r hr] at hx
    exact hstands.owned x ⟨r, hr, hx⟩

theorem alloc (cell : CsonValue Bytes D) : Stands (m.alloc cell).2 c kvp members := by
  refine hstands.frame rfl ?_ fun a ha => ?_
  · rw [Memory.alloc, List.length_append]
    exact Nat.le_add_right _ _
  · rw [Memory.alloc, List.getElem?_append_left ha]

/-- The object at the address gets other members, of which one may be new. -/
theorem set {freed : List Ref} {kvp' : List (Bytes × Ref)} {members' : List (Bytes × Entry D)}
    (hholds : Holds m.heap kvp' members') (hnodup : (kvp'.map Prod.snd).Nodup)
    (hfrom : ∀ r ∈ kvp'.map Prod.snd, r = v ∨ r ∈ kvp.map Prod.snd)
    (hleaf : ∀ list, m.heap[v]? = some (.ARRAY list) → list = []) (hnew : ¬ Owned m.heap kvp v)
    (hfreed : ∀ x ∈ freed, x < m.heap.length) (hlive : c ∉ freed)
    (howned : ∀ x, Owned m.heap kvp' x → x ∉ freed)
    (htexts : ∀ member ∈ members', member.2.is_messages → ∃ err, member.1 = messages_key err) :
    Stands { heap := m.heap.set c (.OBJECT kvp'), freed } c kvp' members' := by
  have hne : ∀ r ∈ kvp'.map Prod.snd, c ≠ r := fun r hr => by
    obtain ⟨entry, hat⟩ := hholds.exists_at hr
    exact hat.ne_object hstands.node
  have hback : ∀ r ∈ kvp'.map Prod.snd, (m.heap.set c (.OBJECT kvp'))[r]? = m.heap[r]? := fun r hr =>
    List.getElem?_set_ne (hne r hr)
  refine ⟨List.getElem?_set_self (List.getElem?_eq_some_iff.mp hstands.node).1, hholds.imp fun r hr entry hat => ?_, hnodup,
    fun r hr list hlist x hx hmem => ?_, fun x hx => ?_, hlive, ?_, htexts⟩
  · refine hat.set (hne r hr) fun s hs => ?_
    cases hstands.node.symm.trans hs
  · rw [hback r hr] at hlist
    rcases hfrom r hr with rfl | hr
    · rw [hleaf list hlist] at hx
      cases hx
    · rcases hfrom x hmem with rfl | hmem
      · exact hnew ⟨r, hr, .inr ⟨list, hlist, hx⟩⟩
      · exact hstands.apart r hr list hlist x hx hmem
  · rw [List.length_set]
    exact hfreed x hx
  · rintro x ⟨r, hr, hx⟩
    rw [hback r hr] at hx
    exact howned x ⟨r, hr, hx⟩

/-- One more member -/
theorem snoc (hat : entry.At m.heap v) (hleaf : ∀ list, m.heap[v]? = some (.ARRAY list) → list = [])
    (hnew : ¬ Owned m.heap kvp v) (hv : v ∉ m.freed) (htext : entry.is_messages → ∃ err, key = messages_key err) :
    Stands (m.put c (.OBJECT (kvp ++ [(key, v)]))) c (kvp ++ [(key, v)]) (members ++ [(key, entry)]) := by
  have hmem : ∀ r, r ∈ (kvp ++ [(key, v)]).map Prod.snd ↔ r ∈ kvp.map Prod.snd ∨ r = v := fun r => by
    rw [List.map_append, List.mem_append, List.map_singleton, List.mem_singleton]
  have hfresh : v ∉ kvp.map Prod.snd := fun hmem => hnew ⟨v, hmem, .inl rfl⟩
  refine hstands.set (hstands.holds.snoc hat) ?_ (fun r hr => ((hmem r).mp hr).symm) hleaf hnew hstands.freed hstands.live ?_ ?_
  · rw [List.map_append, List.map_singleton]
    refine List.nodup_append.mpr ⟨hstands.nodup, List.nodup_singleton _, fun a ha b hb => ?_⟩
    rw [List.mem_singleton.mp hb]
    rintro rfl
    exact hfresh ha
  · rintro x ⟨r, hr, hx⟩
    rcases (hmem r).mp hr with hr | rfl
    · exact hstands.owned x ⟨r, hr, hx⟩
    · rcases hx with rfl | ⟨list, hlist, hx⟩
      · exact hv
      · rw [hleaf list hlist] at hx
        cases hx
  · intro member hmember htrue
    rcases List.mem_append.mp hmember with hmember | hmember
    · exact hstands.texts member hmember htrue
    · rw [List.mem_singleton.mp hmember] at htrue ⊢
      exact htext htrue

/-- The value that had the key is freed. It is not an array of messages. -/
theorem replace {found : Bytes × Ref} (hfind : (kvp.find? fun member => member.1 = key) = some found)
    (hat : entry.At m.heap v) (hleaf : ∀ list, m.heap[v]? ≠ some (.ARRAY list)) (hnew : ¬ Owned m.heap kvp v)
    (hv : v ∉ m.freed) (hkey : ∀ err, key ≠ messages_key err) :
    ∃ m', m.cson_value_free found.2 = some m' ∧ (∀ x ∈ m.freed, x ∈ m'.freed) ∧ m'.heap = m.heap ∧
      Stands (m'.put c (.OBJECT (kvp_replace key v kvp))) c (kvp_replace key v kvp) (put key (fun _ => entry) members) := by
  have hfound : found.2 ∈ kvp.map Prod.snd := List.mem_map_of_mem (List.mem_of_find?_eq_some hfind)
  have hfresh : v ∉ kvp.map Prod.snd := fun hmem => hnew ⟨v, hmem, .inl rfl⟩
  obtain ⟨old, hold, hatold⟩ := hstands.holds.find_some hfind
  have hone : ∀ x ∈ value_refs m.heap m.heap.length found.2, x = found.2 := by
    intro x hx
    rcases hatold.mem_value_refs hx with rfl | ⟨list, hlist, -⟩
    · rfl
    · obtain ⟨err, herr⟩ := hstands.texts _ hold (hatold.is_messages hlist)
      exact absurd herr (hkey err)
  have hlive : m.live found.2 = true := by
    rw [Memory.live, List.all_eq_true]
    intro x hx
    rw [hone x hx]
    exact decide_eq_true (hstands.owned _ ⟨_, hfound, .inl rfl⟩)
  obtain ⟨hnodup, hgone⟩ := kvp_replace_nodup hfind hstands.nodup hfresh
  have hholds : Holds m.heap (kvp_replace key v kvp) (put key (fun _ => entry) members) :=
    hstands.holds.put hfind hstands.nodup (fun _ _ _ _ hat => hat) fun _ _ _ => hat
  refine ⟨{ m with freed := value_refs m.heap m.heap.length found.2 ++ m.freed }, by rw [Memory.cson_value_free, if_pos hlive],
    fun x hx => List.mem_append_right _ hx, rfl, ?_⟩
  refine hstands.set hholds hnodup (fun r hr => mem_kvp_replace hr) (fun list hlist => absurd hlist (hleaf list)) hnew ?_ ?_ ?_ ?_
  · intro x hx
    rcases List.mem_append.mp hx with hx | hx
    · rw [hone x hx]
      exact hatold.lt
    · exact hstands.freed x hx
  · intro hc
    rcases List.mem_append.mp hc with hc | hc
    · exact hstands.ne hfound (hone c hc)
    · exact hstands.live hc
  · rintro x ⟨r, hr, hx⟩ hmem
    rcases List.mem_append.mp hmem with hmem | hmem
    · obtain rfl := hone x hmem
      rcases hx with rfl | ⟨list, hlist, hx⟩
      · exact hgone hr
      · rcases mem_kvp_replace hr with rfl | hr
        · exact hleaf list hlist
        · exact hstands.apart r hr list hlist _ hx hfound
    · rcases mem_kvp_replace hr with rfl | hr
      · rcases hx with rfl | ⟨list, hlist, -⟩
        · exact hv hmem
        · exact hleaf list hlist
      · exact hstands.owned x ⟨r, hr, hx⟩ hmem
  · intro member hmember htrue
    rcases mem_put hmember with hmember | ⟨-, old, hnew⟩
    · exact hstands.texts member hmember htrue
    · cases entry with
      | messages list =>
        obtain ⟨refs, hrefs, -⟩ := hat
        exact absurd hrefs (hleaf refs)
      | _ =>
        rw [hnew] at htrue
        cases htrue

/-- The array that has the key gets one more message. -/
theorem message {found : Bytes × Ref} {list : List Ref} {text : Bytes} {err : Bool}
    (hfind : (kvp.find? fun member => member.1 = messages_key err) = some found)
    (hlist : m.heap[found.2]? = some (.ARRAY list)) (htext : m.heap[v]? = some (.STRING text))
    (hnew : ¬ Owned m.heap kvp v) (hv : v ∉ m.freed) :
    cson_array_set found.2 list.length v m = some (.OK, m.put found.2 (.ARRAY (list ++ [v]))) ∧
      Stands (m.put found.2 (.ARRAY (list ++ [v]))) c kvp (put (messages_key err) (add_message text) members) := by
  have hfound : found.2 ∈ kvp.map Prod.snd := List.mem_map_of_mem (List.mem_of_find?_eq_some hfind)
  have hstring : ∀ s, m.heap[found.2]? ≠ some (.STRING s) := fun s hs => by cases hlist.symm.trans hs
  have hself : (m.heap.set found.2 (.ARRAY (list ++ [v])))[found.2]? = some (.ARRAY (list ++ [v])) :=
    List.getElem?_set_self (List.getElem?_eq_some_iff.mp hlist).1
  constructor
  · rw [cson_array_set, Memory.get, if_neg (hstands.owned _ ⟨_, hfound, .inl rfl⟩), hlist]
    dsimp only
    rw [List.getElem?_eq_none le_rfl]
    dsimp only
    rw [if_pos rfl]
  · have hholds : Holds (m.heap.set found.2 (.ARRAY (list ++ [v]))) kvp (put (messages_key err) (add_message text) members) := by
      have hput : Holds (m.heap.set found.2 (.ARRAY (list ++ [v]))) (kvp_replace (messages_key err) found.2 kvp)
          (put (messages_key err) (add_message text) members) :=
        hstands.holds.put hfind hstands.nodup (fun c _ hne entry hat => hat.set hne.symm hstring) fun entry _ hat => ?_
      · rwa [kvp_replace_self hfind] at hput
      · cases entry with
        | messages texts =>
          obtain ⟨refs, hrefs, hall⟩ := hat
          obtain rfl : list = refs := by
            rw [hrefs] at hlist
            cases hlist
            rfl
          have hcell : ∀ {b : Ref} {s : Bytes}, m.heap[b]? = some (.STRING s) →
              (m.heap.set found.2 (.ARRAY (list ++ [v])))[b]? = some (.STRING s) := fun {b s} hb => by
            have hne : found.2 ≠ b := by
              rintro rfl
              exact hstring s hb
            rw [List.getElem?_set_ne hne, hb]
          exact ⟨list ++ [v], hself, List.rel_append (hall.imp fun _ _ hb => hcell hb) (.cons (hcell htext) .nil)⟩
        | _ => cases hlist.symm.trans hat
    -- The messages of a member are what they were, or those of the array with one more.
    have helements : ∀ r ∈ kvp.map Prod.snd, ∀ refs, (m.heap.set found.2 (.ARRAY (list ++ [v])))[r]? = some (.ARRAY refs) →
        ∀ x ∈ refs, x = v ∨ ∃ refs, m.heap[r]? = some (.ARRAY refs) ∧ x ∈ refs := by
      intro r _ refs hrefs x hx
      by_cases hr : found.2 = r
      · subst hr
        cases hself.symm.trans hrefs
        rcases List.mem_append.mp hx with hx | hx
        · exact .inr ⟨list, hlist, hx⟩
        · exact .inl (List.mem_singleton.mp hx)
      · rw [List.getElem?_set_ne hr] at hrefs
        exact .inr ⟨refs, hrefs, hx⟩
    refine ⟨?_, hholds, hstands.nodup, fun r hr refs hrefs x hx hmem => ?_, fun x hx => ?_, hstands.live, ?_, ?_⟩
    · rw [Memory.put, List.getElem?_set_ne (hstands.ne hfound).symm, hstands.node]
    · rcases helements r hr refs hrefs x hx with rfl | ⟨refs, hrefs, hx⟩
      · exact hnew ⟨x, hmem, .inl rfl⟩
      · exact hstands.apart r hr refs hrefs x hx hmem
    · rw [Memory.put, List.length_set]
      exact hstands.freed x hx
    · rintro x ⟨r, hr, rfl | ⟨refs, hrefs, hx⟩⟩
      · exact hstands.owned x ⟨x, hr, .inl rfl⟩
      · rcases helements r hr refs hrefs x hx with rfl | hx
        · exact hv
        · exact hstands.owned x ⟨r, hr, .inr hx⟩
    · intro member hmember htrue
      rcases mem_put hmember with hmember | ⟨hkey, -⟩
      · exact hstands.texts member hmember htrue
      · exact ⟨err, hkey⟩

omit hstands in
theorem new (hfreed : ∀ x ∈ m.freed, x < m.heap.length) : Stands (m.alloc (.OBJECT [])).2 m.heap.length [] [] := by
  refine ⟨List.getElem?_concat_length, .nil, .nil, fun r hr => ?_, fun x hx => ?_, fun hmem => ?_, ?_, fun member hmember => ?_⟩
  · cases hr
  · rw [Memory.alloc, List.length_append]
    exact (hfreed x hx).trans (Nat.lt_succ_self _)
  · exact lt_irrefl _ (hfreed _ hmem)
  · rintro x ⟨r, hr, -⟩
    cases hr
  · cases hmember

/-- What was allocated just now belongs to nothing. -/
theorem fresh : ¬ Owned m.heap kvp m.heap.length ∧ m.heap.length ∉ m.freed :=
  ⟨fun howned => lt_irrefl _ (howned.lt hstands.holds), fun hmem => lt_irrefl _ (hstands.freed _ hmem)⟩

end Stands

end pwrapi.pwrcmd
