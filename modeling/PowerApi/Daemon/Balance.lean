import PowerApi.Daemon.Worker

open SortedList

namespace pwrapi.daemon.Daemon

section UpdateHash

variable (s : Daemon) (hash : HashRef) (f : HashTable String SetInfo → HashTable String SetInfo)

@[simp] theorem update_hash_all_changes : (s.update_hash hash f).all_changes = s.all_changes := by
  unfold update_hash
  split <;> (try split) <;> rfl

@[simp] theorem update_hash_open_sockets : (s.update_hash hash f).open_sockets = s.open_sockets := by
  unfold update_hash
  split <;> (try split) <;> rfl

@[simp] theorem update_hash_next_addr : (s.update_hash hash f).next_addr = s.next_addr := by
  unfold update_hash
  split <;> (try split) <;> rfl

@[simp] theorem update_hash_files : (s.update_hash hash f).files = s.files := by
  unfold update_hash
  split <;> (try split) <;> rfl

@[simp] theorem update_hash_clock : (s.update_hash hash f).clock = s.clock := by
  unfold update_hash
  split <;> (try split) <;> rfl

@[simp] theorem update_hash_io_failed : (s.update_hash hash f).io_failed = s.io_failed := by
  unfold update_hash
  split <;> (try split) <;> rfl

@[simp] theorem update_hash_slist (path : String) : (s.update_hash hash f).slist path = s.slist path := by
  simp [slist]

variable {s}

theorem update_hash_my_changes {skinfo : Nat} {sk : SocketInfo} (h : s.sockets.lookup skinfo = some sk) :
    s.update_hash (.my_changes skinfo) f =
      { s with sockets := s.sockets.insert skinfo { sk with my_changes := f sk.my_changes } } := by
  simp [update_hash, h]

/-- A change of a table changes nothing, or the defaults, or the table of one socket. -/
theorem update_hash_cases (s : Daemon) (hash : HashRef) (f : HashTable String SetInfo → HashTable String SetInfo) :
    s.update_hash hash f = s ∨ s.update_hash hash f = { s with def_values := f s.def_values } ∨
    ∃ skinfo sk, s.sockets.lookup skinfo = some sk ∧ s.update_hash hash f =
      { s with sockets := s.sockets.insert skinfo { sk with my_changes := f sk.my_changes } } := by
  cases hash with
  | null => exact Or.inl rfl
  | def_values => exact Or.inr (Or.inl rfl)
  | my_changes skinfo =>
    cases hsk : s.sockets.lookup skinfo with
    | none => exact Or.inl (by simp [update_hash, hsk])
    | some sk => exact Or.inr (Or.inr ⟨skinfo, sk, hsk, update_hash_my_changes f hsk⟩)

end UpdateHash

theorem set_insert_all_changes (setp : SetInfo) (hash : HashRef) (s : Daemon) :
    (s.set_insert setp hash).all_changes = s.all_changes.insert setp.setreq.path
      (insert_sorted (s.slist setp.setreq.path) setp attr_value_comp) := by
  simp only [set_insert, update_hash_all_changes, update_hash_slist]

theorem set_remove_all_changes (setp : SetInfo) (hash : HashRef) (s : Daemon) :
    (s.set_remove setp hash).all_changes = s.all_changes.insert setp.setreq.path
      (remove SetInfo.addr (s.slist setp.setreq.path) setp) := by
  simp only [set_remove, update_hash_all_changes, update_hash_slist]

/-- Inserting touches the list of the record's own path only. -/
theorem set_insert_slist (setp : SetInfo) (hash : HashRef) (s : Daemon) (path : String) :
    (s.set_insert setp hash).slist path =
      if path = setp.setreq.path then insert_sorted (s.slist path) setp attr_value_comp
      else s.slist path := by
  rw [slist, set_insert_all_changes, HashTable.lookup_insert_eq_ite]
  split
  · next h => rw [h, Option.getD_some]
  · rfl

theorem set_remove_slist (setp : SetInfo) (hash : HashRef) (s : Daemon) (path : String) :
    (s.set_remove setp hash).slist path =
      if path = setp.setreq.path then remove SetInfo.addr (s.slist path) setp else s.slist path := by
  rw [slist, set_remove_all_changes, HashTable.lookup_insert_eq_ite]
  split
  · next h => rw [h, Option.getD_some]
  · rfl

/-- The changes of a path by all open sockets. -/
def changes (s : Daemon) (path : String) : Multiset SetInfo :=
  (HashTable.values s.sockets).filterMap (·.my_changes.lookup path)

/-- The entries of a path that are in force: its default and the changes of open sockets. -/
def live (s : Daemon) (path : String) : Multiset SetInfo :=
  ((s.def_values.lookup path).toList : Multiset SetInfo) + s.changes path

/-- The changes of a path by open sockets other than the given one. -/
def others (s : Daemon) (skinfo : Nat) (path : String) : Multiset SetInfo :=
  (HashTable.values (s.sockets.erase skinfo)).filterMap (·.my_changes.lookup path)

theorem filterMap_cons_toList {α β : Type} (f : α → Option β) (a : α) (m : Multiset α) :
    (a ::ₘ m).filterMap f = ((f a).toList : Multiset β) + m.filterMap f := by
  cases h : f a with
  | none => rw [Multiset.filterMap_cons_none a m h]; simp
  | some b => rw [Multiset.filterMap_cons_some f a m h]; simp

theorem changes_insert (s : Daemon) (skinfo : Nat) (sk : SocketInfo) (path : String) :
    ({ s with sockets := s.sockets.insert skinfo sk } : Daemon).changes path =
      ((sk.my_changes.lookup path).toList : Multiset SetInfo) + s.others skinfo path := by
  rw [changes, HashTable.values_insert, filterMap_cons_toList, others]

theorem changes_eq {s : Daemon} {skinfo : Nat} {sk : SocketInfo} (h : s.sockets.lookup skinfo = some sk)
    (path : String) :
    s.changes path = ((s.my_change skinfo path).toList : Multiset SetInfo) + s.others skinfo path := by
  rw [changes, HashTable.values_eq_cons_erase h, filterMap_cons_toList, others, my_change, h]
  rfl

theorem my_change_insert (s : Daemon) (skinfo skinfo' : Nat) (sk : SocketInfo) (path : String) :
    ({ s with sockets := s.sockets.insert skinfo sk } : Daemon).my_change skinfo' path =
      if skinfo' = skinfo then sk.my_changes.lookup path else s.my_change skinfo' path := by
  simp only [my_change, HashTable.lookup_insert_eq_ite]
  split <;> rfl

theorem mem_changes {s : Daemon} {path : String} {e : SetInfo} :
    e ∈ s.changes path ↔ ∃ skinfo, s.my_change skinfo path = some e := by
  simp only [changes, Multiset.mem_filterMap, HashTable.mem_values, my_change, Option.bind_eq_some_iff]
  constructor
  · rintro ⟨sk, ⟨skinfo, hlookup⟩, he⟩
    exact ⟨skinfo, sk, hlookup, he⟩
  · rintro ⟨skinfo, sk, hlookup, he⟩
    exact ⟨sk, ⟨skinfo, hlookup⟩, he⟩

/-- The bookkeeping of the tables: every list of `all_changes` holds the live entries
of its path, each once, and every record is filed under its path and its owner. -/
structure Balanced (s : Daemon) : Prop where
  slist_eq : ∀ path, (s.slist path : Multiset SetInfo) = s.live path
  nodup : ∀ path, ((s.slist path).map SetInfo.addr).Nodup
  addr_lt : ∀ path, ∀ e ∈ s.slist path, e.addr < s.next_addr
  def_entry : ∀ path d, s.def_values.lookup path = some d → d.setreq.path = path ∧ d.skinfo = none
  change_entry : ∀ skinfo path e, s.my_change skinfo path = some e →
    e.setreq.path = path ∧ e.skinfo = some skinfo

/-- A state with the same tables is balanced too. -/
theorem Balanced.congr {s s' : Daemon} (h : s.Balanced) (hall : s'.all_changes = s.all_changes)
    (hdef : s'.def_values = s.def_values) (hnext : s.next_addr ≤ s'.next_addr)
    (hchanges : ∀ path, s'.changes path = s.changes path)
    (hmine : ∀ skinfo path, s'.my_change skinfo path = s.my_change skinfo path) : s'.Balanced where
  slist_eq path := by simpa only [slist, live, hall, hdef, hchanges] using h.slist_eq path
  nodup path := by simpa only [slist, hall] using h.nodup path
  addr_lt path e he := (h.addr_lt path e (by simpa only [slist, hall] using he)).trans_le hnext
  def_entry path d hd := h.def_entry path d (by rwa [hdef] at hd)
  change_entry skinfo path e he := h.change_entry skinfo path e (by rwa [hmine] at he)

theorem Balanced.mem_slist {s : Daemon} (h : s.Balanced) {path : String} {e : SetInfo} :
    e ∈ s.slist path ↔
      s.def_values.lookup path = some e ∨ ∃ skinfo, s.my_change skinfo path = some e := by
  rw [← Multiset.mem_coe, h.slist_eq, live, Multiset.mem_add, mem_changes]
  simp

theorem Balanced.path_eq {s : Daemon} (h : s.Balanced) {path : String} {e : SetInfo}
    (he : e ∈ s.slist path) : e.setreq.path = path := by
  rcases h.mem_slist.mp he with hd | ⟨skinfo, hc⟩
  · exact (h.def_entry path e hd).1
  · exact (h.change_entry skinfo path e hc).1

/-- The record is not in the list of its path. -/
def Unlisted (s : Daemon) (setp : SetInfo) : Prop := ∀ e ∈ s.slist setp.setreq.path, e.addr ≠ setp.addr

theorem Balanced.nodup_set_insert {s : Daemon} (h : s.Balanced) {e : SetInfo} (hash : HashRef)
    (hunlisted : s.Unlisted e) (path : String) :
    (((s.set_insert e hash).slist path).map SetInfo.addr).Nodup := by
  rw [set_insert_slist]
  split
  · next hpath =>
    rw [((insert_sorted_perm _ _ _).map SetInfo.addr).nodup_iff, List.map_cons, List.nodup_cons]
    refine ⟨?_, h.nodup path⟩
    intro hmem
    obtain ⟨e', he', haddr⟩ := List.mem_map.mp hmem
    exact hunlisted e' (hpath ▸ he') haddr
  · exact h.nodup path

theorem Balanced.addr_lt_set_insert {s : Daemon} (h : s.Balanced) {e : SetInfo} (hash : HashRef)
    (hlt : e.addr < s.next_addr) (path : String) :
    ∀ e' ∈ (s.set_insert e hash).slist path, e'.addr < s.next_addr := by
  intro e' he'
  rw [set_insert_slist] at he'
  split at he'
  · rcases mem_insert_sorted.mp he' with rfl | he'
    · exact hlt
    · exact h.addr_lt path e' he'
  · exact h.addr_lt path e' he'

theorem mem_of_mem_set_remove {s : Daemon} {e e' : SetInfo} {hash : HashRef} {path : String}
    (h : e' ∈ (s.set_remove e hash).slist path) : e' ∈ s.slist path := by
  rw [set_remove_slist] at h
  split at h
  · exact (remove_sublist _ _ _).subset h
  · exact h

theorem Balanced.nodup_set_remove {s : Daemon} (h : s.Balanced) (e : SetInfo) (hash : HashRef) (path : String) :
    (((s.set_remove e hash).slist path).map SetInfo.addr).Nodup := by
  rw [set_remove_slist]
  split
  · exact (h.nodup path).sublist ((remove_sublist _ _ _).map _)
  · exact h.nodup path

/-- Inserting a record adds it once to the list of its path. -/
theorem coe_set_insert_slist (s : Daemon) (e : SetInfo) (hash : HashRef) :
    ((s.set_insert e hash).slist e.setreq.path : Multiset SetInfo) = e ::ₘ s.slist e.setreq.path := by
  rw [set_insert_slist, if_pos rfl]
  exact Multiset.coe_eq_coe.mpr (insert_sorted_perm _ _ _)

/-- Removing a listed record takes it out once. -/
theorem Balanced.coe_set_remove_slist {s : Daemon} (h : s.Balanced) {e : SetInfo} (hash : HashRef)
    (he : e ∈ s.slist e.setreq.path) :
    (s.slist e.setreq.path : Multiset SetInfo) = e ::ₘ (s.set_remove e hash).slist e.setreq.path := by
  rw [set_remove_slist, if_pos rfl]
  exact Multiset.coe_eq_coe.mpr (perm_cons_remove (h.nodup _) he)

/-- A record that has been removed is no longer listed. -/
theorem Balanced.unlisted_set_remove {s : Daemon} (h : s.Balanced) (e : SetInfo) (hash : HashRef) :
    (s.set_remove e hash).Unlisted e := by
  intro e' he'
  rw [set_remove_slist, if_pos rfl, remove_eq_filter (h.nodup _)] at he'
  simpa using (List.mem_filter.mp he').2

theorem Balanced.set_insert_def {s : Daemon} (h : s.Balanced) {d : SetInfo}
    (hnone : s.def_values.lookup d.setreq.path = none) (hskinfo : d.skinfo = none)
    (hunlisted : s.Unlisted d) (hlt : d.addr < s.next_addr) :
    (s.set_insert d .def_values).Balanced where
  slist_eq path := by
    have hlive : (s.set_insert d .def_values).live path =
        (((s.def_values.insert d.setreq.path d).lookup path).toList : Multiset SetInfo) + s.changes path := rfl
    rw [hlive, HashTable.lookup_insert_eq_ite]
    split
    · next hpath =>
      subst hpath
      rw [coe_set_insert_slist, h.slist_eq, live, hnone]
      simp
    · next hpath =>
      rw [set_insert_slist, if_neg hpath]
      exact h.slist_eq path
  nodup := h.nodup_set_insert .def_values hunlisted
  addr_lt := h.addr_lt_set_insert .def_values hlt
  def_entry path e he := by
    change (s.def_values.insert d.setreq.path d).lookup path = some e at he
    rw [HashTable.lookup_insert_eq_ite] at he
    split at he
    · next hpath =>
      cases he
      exact ⟨hpath.symm, hskinfo⟩
    · exact h.def_entry path e he
  change_entry := h.change_entry

theorem Balanced.set_remove_def {s : Daemon} (h : s.Balanced) {path : String} {d : SetInfo}
    (hd : s.def_values.lookup path = some d) : (s.set_remove d .def_values).Balanced where
  slist_eq path' := by
    obtain ⟨rfl, _⟩ := h.def_entry path d hd
    have hlive : (s.set_remove d .def_values).live path' =
        (((s.def_values.erase d.setreq.path).lookup path').toList : Multiset SetInfo) + s.changes path' := rfl
    rw [hlive, HashTable.lookup_erase_eq_ite]
    split
    · next hpath =>
      subst hpath
      have hmem : d ∈ s.slist d.setreq.path := h.mem_slist.mpr (Or.inl hd)
      have hold := h.coe_set_remove_slist .def_values hmem
      rw [h.slist_eq, live, hd] at hold
      simpa using (Multiset.cons_inj_right d).mp (by simpa using hold.symm)
    · next hpath =>
      rw [set_remove_slist, if_neg hpath]
      exact h.slist_eq path'
  nodup := h.nodup_set_remove d .def_values
  addr_lt path' e he := h.addr_lt path' e (mem_of_mem_set_remove he)
  def_entry path' e he := by
    change (s.def_values.erase d.setreq.path).lookup path' = some e at he
    rw [HashTable.lookup_erase_eq_ite] at he
    split at he
    · cases he
    · exact h.def_entry path' e he
  change_entry := h.change_entry

section MyChanges

variable {s : Daemon} {skinfo : Nat} {sk : SocketInfo}

theorem set_insert_my_changes (hsk : s.sockets.lookup skinfo = some sk) (e : SetInfo) :
    (s.set_insert e (.my_changes skinfo)).sockets =
      s.sockets.insert skinfo { sk with my_changes := sk.my_changes.insert e.setreq.path e } := by
  simp [set_insert, update_hash_my_changes _ hsk]

theorem set_remove_my_changes (hsk : s.sockets.lookup skinfo = some sk) (e : SetInfo) :
    (s.set_remove e (.my_changes skinfo)).sockets =
      s.sockets.insert skinfo { sk with my_changes := sk.my_changes.erase e.setreq.path } := by
  simp [set_remove, update_hash_my_changes _ hsk]

theorem changes_of_sockets_eq {s' : Daemon} {sk' : SocketInfo}
    (h : s'.sockets = s.sockets.insert skinfo sk') (path : String) :
    s'.changes path = ((sk'.my_changes.lookup path).toList : Multiset SetInfo) + s.others skinfo path := by
  rw [← changes_insert s skinfo sk' path, changes, changes, h]

theorem my_change_of_sockets_eq {s' : Daemon} {sk' : SocketInfo}
    (h : s'.sockets = s.sockets.insert skinfo sk') (skinfo' : Nat) (path : String) :
    s'.my_change skinfo' path =
      if skinfo' = skinfo then sk'.my_changes.lookup path else s.my_change skinfo' path := by
  rw [← my_change_insert s skinfo skinfo' sk' path, my_change, my_change, h]

@[simp] theorem set_insert_my_changes_def_values (e : SetInfo) :
    (s.set_insert e (.my_changes skinfo)).def_values = s.def_values := by
  simp only [set_insert, update_hash]
  split <;> rfl

@[simp] theorem set_remove_my_changes_def_values (e : SetInfo) :
    (s.set_remove e (.my_changes skinfo)).def_values = s.def_values := by
  simp only [set_remove, update_hash]
  split <;> rfl

theorem Balanced.set_insert_mine (h : s.Balanced) (hsk : s.sockets.lookup skinfo = some sk) {e : SetInfo}
    (hnone : s.my_change skinfo e.setreq.path = none) (hskinfo : e.skinfo = some skinfo)
    (hunlisted : s.Unlisted e) (hlt : e.addr < s.next_addr) :
    (s.set_insert e (.my_changes skinfo)).Balanced where
  slist_eq path := by
    rw [live, set_insert_my_changes_def_values, changes_of_sockets_eq (set_insert_my_changes hsk e),
      HashTable.lookup_insert_eq_ite]
    split
    · next hpath =>
      subst hpath
      rw [coe_set_insert_slist, h.slist_eq, live, changes_eq hsk, hnone]
      simp
    · next hpath =>
      rw [set_insert_slist, if_neg hpath, h.slist_eq, live, changes_eq hsk, my_change, hsk]
      rfl
  nodup := h.nodup_set_insert _ hunlisted
  addr_lt := by simpa [set_insert] using h.addr_lt_set_insert (.my_changes skinfo) hlt
  def_entry := by simpa using h.def_entry
  change_entry skinfo' path e' he' := by
    rw [my_change_of_sockets_eq (set_insert_my_changes hsk e), HashTable.lookup_insert_eq_ite] at he'
    split at he'
    · next howner =>
      subst howner
      split at he'
      · next hpath =>
        cases he'
        exact ⟨hpath.symm, hskinfo⟩
      · exact h.change_entry skinfo' path e' (by simp [my_change, hsk, he'])
    · exact h.change_entry skinfo' path e' he'

theorem Balanced.set_remove_mine (h : s.Balanced) (hsk : s.sockets.lookup skinfo = some sk) {e : SetInfo}
    {path : String} (he : s.my_change skinfo path = some e) :
    (s.set_remove e (.my_changes skinfo)).Balanced where
  slist_eq path' := by
    obtain ⟨rfl, _⟩ := h.change_entry skinfo path e he
    rw [live, set_remove_my_changes_def_values, changes_of_sockets_eq (set_remove_my_changes hsk e),
      HashTable.lookup_erase_eq_ite]
    split
    · next hpath =>
      subst hpath
      have hmem : e ∈ s.slist e.setreq.path := h.mem_slist.mpr (Or.inr ⟨skinfo, he⟩)
      have hold := h.coe_set_remove_slist (.my_changes skinfo) hmem
      rw [h.slist_eq, live, changes_eq hsk, he] at hold
      simpa using (Multiset.cons_inj_right e).mp (by simpa using hold.symm)
    · next hpath =>
      rw [set_remove_slist, if_neg hpath, h.slist_eq, live, changes_eq hsk, my_change, hsk]
      rfl
  nodup := h.nodup_set_remove e _
  addr_lt path' e' he' := by simpa [set_remove] using h.addr_lt path' e' (mem_of_mem_set_remove he')
  def_entry := by simpa using h.def_entry
  change_entry skinfo' path' e' he' := by
    rw [my_change_of_sockets_eq (set_remove_my_changes hsk e), HashTable.lookup_erase_eq_ite] at he'
    split at he'
    · next howner =>
      subst howner
      split at he'
      · cases he'
      · exact h.change_entry skinfo' path' e' (by simp [my_change, hsk, he'])
    · exact h.change_entry skinfo' path' e' he'

end MyChanges

section Owner

variable {s : Daemon} {path : String} {e : SetInfo}

/-- The owner of a listed entry says which table it is in. -/
theorem Balanced.my_change_of_mem (h : s.Balanced) {skinfo : Nat} (he : e ∈ s.slist path)
    (howner : e.skinfo = some skinfo) : s.my_change skinfo path = some e := by
  obtain hd | ⟨skinfo', hc⟩ := h.mem_slist.mp he
  · rw [(h.def_entry path e hd).2] at howner
    cases howner
  · rw [(h.change_entry skinfo' path e hc).2] at howner
    cases howner
    exact hc

theorem Balanced.default_of_mem (h : s.Balanced) (he : e ∈ s.slist path) (howner : e.skinfo = none) :
    s.def_values.lookup path = some e := by
  obtain hd | ⟨skinfo', hc⟩ := h.mem_slist.mp he
  · exact hd
  · rw [(h.change_entry skinfo' path e hc).2] at howner
    cases howner

theorem Balanced.remove_eq_filter_of (h : s.Balanced) (he : e ∈ s.slist path) {p : SetInfo → Bool}
    (hp : ∀ y ∈ s.slist path, p y = true ↔ y ≠ e) :
    remove SetInfo.addr (s.slist path) e = (s.slist path).filter p := by
  rw [remove_eq_filter (h.nodup path)]
  refine List.filter_congr fun y hy => ?_
  have haddr : y.addr = e.addr ↔ y = e :=
    ⟨List.inj_on_of_nodup_map (h.nodup path) hy he, congrArg SetInfo.addr⟩
  rw [Bool.eq_iff_iff, hp y hy, decide_eq_true_iff, Ne, haddr]

/-- Removing a socket's change removes the entries that the socket owns. -/
theorem Balanced.remove_change (h : s.Balanced) {skinfo : Nat} (he : s.my_change skinfo path = some e) :
    remove SetInfo.addr (s.slist path) e = (s.slist path).filter fun y => decide (y.skinfo ≠ some skinfo) := by
  refine h.remove_eq_filter_of (h.mem_slist.mpr (Or.inr ⟨skinfo, he⟩)) fun y hy => ?_
  rw [decide_eq_true_iff, not_iff_not]
  constructor
  · intro howner
    have hy' := h.my_change_of_mem hy howner
    rw [he] at hy'
    exact (Option.some.inj hy').symm
  · rintro rfl
    exact (h.change_entry skinfo path y he).2

/-- Removing the default removes the entries without an owner. -/
theorem Balanced.remove_default (h : s.Balanced) (hd : s.def_values.lookup path = some e) :
    remove SetInfo.addr (s.slist path) e = (s.slist path).filter fun y => y.skinfo.isSome := by
  refine h.remove_eq_filter_of (h.mem_slist.mpr (Or.inl hd)) fun y hy => ?_
  rw [Option.isSome_iff_ne_none, not_iff_not]
  constructor
  · intro howner
    have hy' := h.default_of_mem hy howner
    rw [hd] at hy'
    exact (Option.some.inj hy').symm
  · rintro rfl
    exact (h.def_entry path y hd).2

/-- A socket without a change of the path has no entry in its list. -/
theorem Balanced.filter_of_no_change (h : s.Balanced) {skinfo : Nat} (hnone : s.my_change skinfo path = none) :
    (s.slist path).filter (fun y => decide (y.skinfo ≠ some skinfo)) = s.slist path := by
  refine List.filter_eq_self.mpr fun y hy => ?_
  refine decide_eq_true fun howner => ?_
  rw [h.my_change_of_mem hy howner] at hnone
  cases hnone

end Owner

end pwrapi.daemon.Daemon
