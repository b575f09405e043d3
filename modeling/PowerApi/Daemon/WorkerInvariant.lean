import PowerApi.Daemon.Store

open SortedList

namespace pwrapi.daemon.Daemon

section Defset

variable {io : Io} {now : UInt64} {persist : Bool} {newset : SetInfo} {s s' : Daemon}

/-- Providing a default touches `def_values`, `all_changes`, the clock and the allocator only. -/
theorem DefsetStep.frame (h : DefsetStep io now persist newset s s') :
    s'.sockets = s.sockets ∧ s'.files = s.files ∧ s'.io_failed = s.io_failed ∧ s'.sent = s.sent := by
  cases h <;> exact ⟨rfl, rfl, rfl, rfl⟩

theorem DefsetStep.keeps (h : DefsetStep io now persist newset s s') : s.Keeps s' := by
  cases h with
  | first => exact ⟨rfl, fun _ => rfl, Nat.le_succ _, rfl⟩
  | replaced => exact ⟨rfl, fun _ => rfl, Nat.le_refl _, rfl⟩
  | kept => exact .refl s

/-- Afterwards the path has a default value. -/
theorem DefsetStep.has_default (h : DefsetStep io now persist newset s s') (hb : s.Balanced) :
    ∃ d, s'.def_values.lookup newset.setreq.path = some d := by
  cases h with
  | first value => exact ⟨_, Finmap.lookup_insert _⟩
  | replaced d hd =>
    obtain ⟨hpath, _⟩ := hb.def_entry _ _ hd
    refine ⟨replaced_default d newset now, ?_⟩
    rw [← hpath]
    exact Finmap.lookup_insert _
  | kept d hd => exact ⟨d, hd⟩

theorem DefsetStep.balanced (h : DefsetStep io now persist newset s s') (hb : s.Balanced) : s'.Balanced := by
  cases h with
  | first value hnone =>
    have hb' : ({ s with next_addr := s.next_addr + 1, clock := now } : Daemon).Balanced :=
      hb.congr rfl rfl (Nat.le_succ _) (fun _ => rfl) (fun _ _ => rfl)
    refine hb'.set_insert_def hnone rfl ?_ (Nat.lt_succ_self _)
    intro e he haddr
    have hlt := hb.addr_lt _ e he
    rw [haddr] at hlt
    exact absurd hlt (lt_irrefl _)
  | replaced d hd =>
    obtain ⟨hpath, hskinfo⟩ := hb.def_entry _ _ hd
    have hb' : ({ s.set_remove d .def_values with clock := now } : Daemon).Balanced :=
      (hb.set_remove_def hd).congr rfl rfl (Nat.le_refl _) (fun _ => rfl) (fun _ _ => rfl)
    refine hb'.set_insert_def (Finmap.lookup_erase _ _) hskinfo (hb.unlisted_set_remove d .def_values) ?_
    exact hb.addr_lt _ d (hb.mem_slist.mpr (Or.inl hd))
  | kept => exact hb

theorem defaulted_set_insert_def {d : SetInfo} (h : s.Defaulted) : (s.set_insert d .def_values).Defaulted := by
  intro path list hlookup
  change ((s.def_values.insert d.setreq.path d).lookup path).isSome = true
  rw [HashTable.lookup_insert_eq_ite]
  split
  · rfl
  · next hpath =>
    simp only [set_insert, update_hash, HashTable.lookup_insert_eq_ite, if_neg hpath] at hlookup
    exact h path list hlookup

theorem DefsetStep.defaulted (h : DefsetStep io now persist newset s s') (hb : s.Balanced)
    (hd : s.Defaulted) : s'.Defaulted := by
  cases h with
  | first value => exact defaulted_set_insert_def (s := { s with next_addr := _, clock := now }) hd
  | replaced d hlookup =>
    obtain ⟨hpath, _⟩ := hb.def_entry _ _ hlookup
    intro path list hlist
    change (((s.def_values.erase d.setreq.path).insert d.setreq.path _).lookup path).isSome = true
    rw [HashTable.lookup_insert_eq_ite, HashTable.lookup_erase_eq_ite]
    split
    · rfl
    · next hne =>
      simp only [set_insert, set_remove, update_hash, replaced_default, HashTable.lookup_insert_eq_ite,
        if_neg hne] at hlist
      exact hd path list hlist
  | kept => exact hd

/-- The list of the path gains at most the new default record. -/
theorem DefsetStep.unlisted (h : DefsetStep io now persist newset s s') (hb : s.Balanced)
    (hunlisted : s.Unlisted newset) (hlt : newset.addr < s.next_addr) : s'.Unlisted newset := by
  intro e he
  cases h with
  | first value hnone =>
    rw [set_insert_slist] at he
    split at he
    · obtain rfl | he := mem_insert_sorted.mp he
      · exact (Nat.ne_of_lt hlt).symm
      · exact hunlisted e he
    · exact hunlisted e he
  | replaced d hd =>
    rw [set_insert_slist] at he
    have hold : ∀ e ∈ (s.set_remove d .def_values).slist newset.setreq.path, e.addr ≠ newset.addr :=
      fun e he => hunlisted e (mem_of_mem_set_remove he)
    split at he
    · obtain rfl | he := mem_insert_sorted.mp he
      · exact hunlisted d (hb.mem_slist.mpr (Or.inl hd))
      · exact hold e he
    · exact hold e he
  | kept => exact hunlisted e he

end Defset

section Oldset

variable {s : Daemon} {skinfo : Nat} {sk : SocketInfo} {path : String}

/-- `worker_remove_oldset` either finds no earlier change or removes it from both tables. -/
theorem worker_remove_oldset_eq (s : Daemon) (skinfo : Nat) (path : String) :
    (s.my_change skinfo path = none ∧ s.worker_remove_oldset skinfo path = s) ∨
      ∃ oldset, s.my_change skinfo path = some oldset ∧
        s.worker_remove_oldset skinfo path = s.set_remove oldset (.my_changes skinfo) := by
  unfold worker_remove_oldset
  cases h : s.my_change skinfo path with
  | none => exact Or.inl ⟨rfl, rfl⟩
  | some oldset => exact Or.inr ⟨oldset, rfl, rfl⟩

theorem worker_remove_oldset_balanced (hb : s.Balanced) (hsk : s.sockets.lookup skinfo = some sk) :
    (s.worker_remove_oldset skinfo path).Balanced := by
  obtain ⟨_, heq⟩ | ⟨oldset, hold, heq⟩ := s.worker_remove_oldset_eq skinfo path
  · rwa [heq]
  · rw [heq]
    exact hb.set_remove_mine hsk hold

theorem worker_remove_oldset_keeps (s : Daemon) (skinfo : Nat) (path : String) :
    s.Keeps (s.worker_remove_oldset skinfo path) := by
  obtain ⟨_, heq⟩ | ⟨oldset, _, heq⟩ := s.worker_remove_oldset_eq skinfo path
  · rw [heq]
    exact .refl s
  · rw [heq]
    exact s.set_remove_keeps oldset _

/-- Afterwards the socket has no change of the path. -/
theorem worker_remove_oldset_my_change (hb : s.Balanced) (hsk : s.sockets.lookup skinfo = some sk) :
    (s.worker_remove_oldset skinfo path).my_change skinfo path = none := by
  obtain ⟨hnone, heq⟩ | ⟨oldset, hold, heq⟩ := s.worker_remove_oldset_eq skinfo path
  · rwa [heq]
  · obtain ⟨hpath, _⟩ := hb.change_entry _ _ _ hold
    rw [heq, my_change_of_sockets_eq (set_remove_my_changes hsk oldset), if_pos rfl, hpath,
      Finmap.lookup_erase]

theorem worker_remove_oldset_frame (s : Daemon) (skinfo : Nat) (path : String) :
    (s.worker_remove_oldset skinfo path).def_values = s.def_values ∧
      (s.worker_remove_oldset skinfo path).files = s.files ∧
      (s.worker_remove_oldset skinfo path).io_failed = s.io_failed := by
  obtain ⟨_, heq⟩ | ⟨oldset, _, heq⟩ := s.worker_remove_oldset_eq skinfo path
  · rw [heq]
    exact ⟨rfl, rfl, rfl⟩
  · rw [heq]
    exact ⟨set_remove_my_changes_def_values oldset, by simp [set_remove], by simp [set_remove]⟩

theorem mem_of_mem_worker_remove_oldset {p : String} {e : SetInfo}
    (he : e ∈ (s.worker_remove_oldset skinfo path).slist p) : e ∈ s.slist p := by
  obtain ⟨_, heq⟩ | ⟨oldset, _, heq⟩ := s.worker_remove_oldset_eq skinfo path
  · rwa [heq] at he
  · rw [heq] at he
    exact mem_of_mem_set_remove he

/-- Storing a list under a path that has a default value keeps the defaults complete. -/
theorem Defaulted.of_insert_list {s' : Daemon} (hd : s.Defaulted) {list : List SetInfo}
    (hdef : s'.def_values = s.def_values) (hall : s'.all_changes = s.all_changes.insert path list)
    (hpath : ∃ d, s.def_values.lookup path = some d) : s'.Defaulted := by
  intro path' list' hlist
  rw [hdef]
  rw [hall, HashTable.lookup_insert_eq_ite] at hlist
  split at hlist
  · next h =>
    obtain ⟨d, hlookup⟩ := hpath
    rw [h, hlookup]
    rfl
  · exact hd path' list' hlist

theorem defaulted_set_remove_mine {oldset : SetInfo} (hd : s.Defaulted)
    (hpath : ∃ d, s.def_values.lookup oldset.setreq.path = some d) :
    (s.set_remove oldset (.my_changes skinfo)).Defaulted :=
  hd.of_insert_list (set_remove_my_changes_def_values oldset) (set_remove_all_changes oldset _ s) hpath

theorem defaulted_set_insert_mine {newset : SetInfo} (hd : s.Defaulted)
    (hpath : ∃ d, s.def_values.lookup newset.setreq.path = some d) :
    (s.set_insert newset (.my_changes skinfo)).Defaulted :=
  hd.of_insert_list (set_insert_my_changes_def_values newset) (set_insert_all_changes newset _ s) hpath

theorem worker_remove_oldset_defaulted (skinfo : Nat) (path : String) (hb : s.Balanced) (hd : s.Defaulted) :
    (s.worker_remove_oldset skinfo path).Defaulted := by
  obtain ⟨_, heq⟩ | ⟨oldset, hold, heq⟩ := s.worker_remove_oldset_eq skinfo path
  · rwa [heq]
  · rw [heq]
    obtain ⟨hpath, _⟩ := hb.change_entry _ _ _ hold
    have hmem : oldset ∈ s.slist path := hb.mem_slist.mpr (Or.inr ⟨skinfo, hold⟩)
    exact defaulted_set_remove_mine hd (hpath ▸ hd.of_mem hmem)

end Oldset

section Respond

variable {s s' : Daemon} {skinfo : Nat} {sk sk' : SocketInfo}

/-- A record rewritten with the same changes leaves the changes of every socket as they are. -/
theorem my_change_of_same (s' : Daemon) (sk' : SocketInfo) (hsk : s.sockets.lookup skinfo = some sk)
    (hsame : sk'.my_changes = sk.my_changes)
    (hsockets : s'.sockets = s.sockets.insert skinfo sk') (skinfo' : Nat) (path : String) :
    s'.my_change skinfo' path = s.my_change skinfo' path := by
  rw [my_change_of_sockets_eq hsockets]
  split
  · next h => rw [h, hsame, my_change, hsk, Option.bind_some]
  · rfl

theorem changes_of_same (hsk : s.sockets.lookup skinfo = some sk) (hsame : sk'.my_changes = sk.my_changes)
    (hsockets : s'.sockets = s.sockets.insert skinfo sk') (path : String) :
    s'.changes path = s.changes path := by
  rw [changes_of_sockets_eq hsockets, changes_eq hsk, my_change, hsk, Option.bind_some, hsame]

theorem Balanced.of_same (hb : s.Balanced) (sk' : SocketInfo) (hsk : s.sockets.lookup skinfo = some sk)
    (hsame : sk'.my_changes = sk.my_changes) (hsockets : s'.sockets = s.sockets.insert skinfo sk')
    (hall : s'.all_changes = s.all_changes) (hdef : s'.def_values = s.def_values)
    (hnext : s'.next_addr = s.next_addr) : s'.Balanced :=
  hb.congr hall hdef hnext.ge (changes_of_same hsk hsame hsockets) (my_change_of_same s' sk' hsk hsame hsockets)

theorem Defaulted.of_eq (hd : s.Defaulted) (hall : s'.all_changes = s.all_changes)
    (hdef : s'.def_values = s.def_values) : s'.Defaulted := by
  intro path list hlist
  rw [hdef]
  exact hd path list (hall ▸ hlist)

theorem send_response_same_store {resp : Response} (h : s.send_response skinfo resp = some s') :
    s.SameStore s' := by
  obtain ⟨sk, hsk, rfl⟩ := send_response_eq h
  refine ⟨rfl, rfl, rfl, rfl, rfl, ?_⟩
  exact my_change_of_same _ { sk with seqnum := sk.seqnum + 1 } hsk rfl rfl

/-- Sending a response keeps the store's invariant. -/
theorem send_response_invariant {resp : Response} (hinv : s.StoreInvariant)
    (h : s.send_response skinfo resp = some s') : s'.StoreInvariant ∧ s.Keeps s' := by
  obtain ⟨sk, hsk, rfl⟩ := send_response_eq h
  have hkeeps : s.Keeps { s with
      sockets := s.sockets.insert skinfo { sk with seqnum := sk.seqnum + 1 }
      sent := s.sent ++ [{ record := skinfo, fd := sk.sockid, resp := { resp with sequence := sk.seqnum } }] } :=
    keeps_of_sockets_insert { sk with seqnum := sk.seqnum + 1 } hsk rfl rfl rfl (Nat.le_refl _) rfl
  refine ⟨⟨?_, hinv.linked.of_keeps hkeeps, hinv.defaulted.of_eq rfl rfl⟩, hkeeps⟩
  exact hinv.balanced.of_same { sk with seqnum := sk.seqnum + 1 } hsk rfl rfl rfl rfl rfl

/-- The control file that `worker_apply` leaves, given the head of the list. -/
def applied_file (io : Io) (newset top : SetInfo) (file : ControlFile) : ControlFile :=
  if attr_value_comp newset top = 0 then written_file io newset file else file

/-- Whether `worker_apply` attempts a write that fails. -/
def apply_fails (io : Io) (newset top : SetInfo) (file : ControlFile) : Bool :=
  decide (attr_value_comp newset top = 0) && write_fails io newset file

/-- `worker_apply` writes at most the file of the record's path, and sends one response. -/
theorem worker_apply_eq {io : Io} {newset : SetInfo} (h : s.worker_apply io skinfo newset = some s') :
    ∃ top, (s.slist newset.setreq.path).head? = some top ∧
      let file := s.files newset.setreq.path
      ({ s with
        files := Function.update s.files newset.setreq.path (applied_file io newset top file)
        io_failed := s.io_failed || apply_fails io newset top file } : Daemon).send_ret_code_response skinfo
          (if apply_fails io newset top file then PWR_RET_FAILURE else PWR_RET_SUCCESS) = some s' := by
  unfold worker_apply at h
  cases hlist : s.slist newset.setreq.path with
  | nil => simp [hlist] at h
  | cons top rest =>
    refine ⟨top, rfl, ?_⟩
    simp only [hlist] at h
    by_cases htop : attr_value_comp newset top = 0
    · simp only [htop, if_true, write_attr_value_eq] at h
      cases hfails : write_fails io newset (s.files newset.setreq.path) with
      | true => simpa [applied_file, apply_fails, htop, hfails] using h
      | false => simpa [applied_file, apply_fails, htop, hfails] using h
    · simpa [applied_file, apply_fails, htop] using h

theorem worker_apply_success (io : Io) (newset : SetInfo) (hlist : s.slist newset.setreq.path ≠ [])
    (hsk : s.sockets.lookup skinfo = some sk) : ∃ s', s.worker_apply io skinfo newset = some s' := by
  unfold worker_apply
  cases h : s.slist newset.setreq.path with
  | nil => exact absurd h hlist
  | cons top rest =>
    simp only []
    split
    · rw [write_attr_value_eq]
      exact send_response_success _ hsk
    · exact send_response_success _ hsk

end Respond

section Process

variable {io : Io} {now : UInt64 × UInt64} {newset : SetInfo} {s s₁ s' : Daemon} {skinfo : Nat} {sk : SocketInfo}

/-- The state in which `worker_apply` is called. -/
def listed (s₁ : Daemon) (skinfo : Nat) (now : UInt64) (newset : SetInfo) : Daemon :=
  ({ s₁.worker_remove_oldset skinfo newset.setreq.path with clock := now } : Daemon).set_insert
    { newset with timestamp := now } (.my_changes skinfo)

/-- The store after a request has been processed: as before when its default
cannot be had, else with the new record listed and, where it ties with the head, written. -/
inductive ProcessStep (io : Io) (now : UInt64 × UInt64) (newset : SetInfo) (s s' : Daemon) : Prop where
  | refused (hsame : ({ s with io_failed := true } : Daemon).SameStore s')
  | applied (skinfo : Nat) (sk : SocketInfo) (s₁ : Daemon) (top : SetInfo) (hskinfo : newset.skinfo = some skinfo)
      (hsk : s.sockets.lookup skinfo = some sk)
      (hdef : DefsetStep io now.1 (is_persistent (some sk)) newset s s₁)
      (htop : ((s₁.listed skinfo now.2 newset).slist newset.setreq.path).head? = some top)
      (hsame : ({ s₁.listed skinfo now.2 newset with
        files := Function.update s.files newset.setreq.path
          (applied_file io { newset with timestamp := now.2 } top (s.files newset.setreq.path))
        io_failed := s.io_failed ||
          apply_fails io { newset with timestamp := now.2 } top (s.files newset.setreq.path) } : Daemon).SameStore s')

theorem listed_files (s : Daemon) (skinfo : Nat) (now : UInt64) (newset : SetInfo) :
    (s.listed skinfo now newset).files = s.files ∧ (s.listed skinfo now newset).io_failed = s.io_failed := by
  obtain ⟨_, hfiles, hfailed⟩ := s.worker_remove_oldset_frame skinfo newset.setreq.path
  simp [listed, set_insert, hfiles, hfailed]

theorem listed_clock (s : Daemon) (skinfo : Nat) (now : UInt64) (newset : SetInfo) :
    (s.listed skinfo now newset).clock = now := by
  simp [listed, set_insert]

theorem worker_process_item_step (h : s.worker_process_item io now newset = some s') :
    ProcessStep io now newset s s' := by
  obtain ⟨skinfo, sk, hskinfo, hsk, hcase⟩ := worker_process_item_cases h
  obtain ⟨_, hsend⟩ | ⟨s₁, hdef, happly⟩ := hcase
  · exact .refused (send_response_same_store hsend)
  · have hstep := worker_defset_step hdef
    obtain ⟨top, htop, hsend⟩ := worker_apply_eq (s := s₁.listed skinfo now.2 newset) happly
    obtain ⟨hfiles, hfailed⟩ := s₁.listed_files skinfo now.2 newset
    rw [hstep.frame.2.1] at hfiles
    rw [hstep.frame.2.2.1] at hfailed
    have hsame := send_response_same_store hsend
    rw [hfiles, hfailed] at hsame
    exact .applied skinfo sk s₁ top hskinfo hsk hstep htop hsame

theorem listed_keeps (s₁ : Daemon) (skinfo : Nat) (now : UInt64) (newset : SetInfo) :
    s₁.Keeps (s₁.listed skinfo now newset) := by
  have hremove := s₁.worker_remove_oldset_keeps skinfo newset.setreq.path
  have hclock : s₁.Keeps { s₁.worker_remove_oldset skinfo newset.setreq.path with clock := now } :=
    ⟨hremove.open_sockets, hremove.records, hremove.next_addr, hremove.work_queue⟩
  exact hclock.trans (set_insert_keeps _ _ _)

/-- Listing the new record keeps the store's invariant. -/
theorem listed_invariant (hdef : DefsetStep io now.1 (is_persistent (some sk)) newset s s₁)
    (hinv : s.StoreInvariant) (hsk : s.sockets.lookup skinfo = some sk) (hskinfo : newset.skinfo = some skinfo)
    (hunlisted : s.Unlisted newset) (hlt : newset.addr < s.next_addr) :
    (s₁.listed skinfo now.2 newset).StoreInvariant ∧ s.Keeps (s₁.listed skinfo now.2 newset) := by
  have hsk₁ : s₁.sockets.lookup skinfo = some sk := by rwa [hdef.frame.1]
  have hb₁ := hdef.balanced hinv.balanced
  have hb₂ : ({ s₁.worker_remove_oldset skinfo newset.setreq.path with clock := now.2 } : Daemon).Balanced :=
    (worker_remove_oldset_balanced hb₁ hsk₁).congr rfl rfl (Nat.le_refl _) (fun _ => rfl) (fun _ _ => rfl)
  have hremove := s₁.worker_remove_oldset_keeps skinfo newset.setreq.path
  obtain ⟨sk₂, hsk₂, _⟩ := hremove.lookup hsk₁
  have hunlisted₂ : ({ s₁.worker_remove_oldset skinfo newset.setreq.path with clock := now.2 } : Daemon).Unlisted
      { newset with timestamp := now.2 } :=
    fun e he => hdef.unlisted hinv.balanced hunlisted hlt e (mem_of_mem_worker_remove_oldset he)
  have hkeeps : s.Keeps (s₁.listed skinfo now.2 newset) := hdef.keeps.trans (s₁.listed_keeps _ _ _)
  refine ⟨⟨?_, hinv.linked.of_keeps hkeeps, ?_⟩, hkeeps⟩
  · refine hb₂.set_insert_mine hsk₂ (worker_remove_oldset_my_change hb₁ hsk₁) hskinfo hunlisted₂ ?_
    exact hlt.trans_le (hdef.keeps.next_addr.trans hremove.next_addr)
  · have hd₂ := worker_remove_oldset_defaulted skinfo newset.setreq.path hb₁
      (hdef.defaulted hinv.balanced hinv.defaulted)
    refine defaulted_set_insert_mine (s := { s₁.worker_remove_oldset skinfo newset.setreq.path with clock := _ })
      hd₂ ?_
    obtain ⟨d, hd⟩ := hdef.has_default hinv.balanced
    exact ⟨d, by rw [← hd, ← (s₁.worker_remove_oldset_frame skinfo newset.setreq.path).1]⟩

/-- Processing a request keeps the store's invariant. -/
theorem worker_process_item_invariant (hinv : s.StoreInvariant) (hunlisted : s.Unlisted newset)
    (hlt : newset.addr < s.next_addr) (h : s.worker_process_item io now newset = some s') :
    s'.StoreInvariant ∧ s.Keeps s' := by
  obtain ⟨skinfo, sk, hskinfo, hsk, hcase⟩ := worker_process_item_cases h
  obtain ⟨_, hsend⟩ | ⟨s₁, hdef, happly⟩ := hcase
  · have hinv' : ({ s with io_failed := true } : Daemon).StoreInvariant :=
      ⟨hinv.balanced.congr rfl rfl (Nat.le_refl _) (fun _ => rfl) (fun _ _ => rfl),
        ⟨hinv.linked.open_iff, hinv.linked.addr_lt⟩, hinv.defaulted⟩
    obtain ⟨hfinal, hkeeps⟩ := send_response_invariant hinv' hsend
    exact ⟨hfinal, ⟨hkeeps.open_sockets, hkeeps.records, hkeeps.next_addr, hkeeps.work_queue⟩⟩
  · obtain ⟨hlisted, hkeeps⟩ := listed_invariant (worker_defset_step hdef) hinv hsk hskinfo hunlisted hlt
    obtain ⟨top, _, hsend⟩ := worker_apply_eq happly
    have hinv' : ∀ files io_failed,
        ({ s₁.listed skinfo now.2 newset with files, io_failed } : Daemon).StoreInvariant := fun _ _ =>
      ⟨hlisted.balanced.congr rfl rfl (Nat.le_refl _) (fun _ => rfl) (fun _ _ => rfl),
        ⟨hlisted.linked.open_iff, hlisted.linked.addr_lt⟩, hlisted.defaulted⟩
    obtain ⟨hfinal, hkeeps'⟩ := send_response_invariant (hinv' _ _) hsend
    exact ⟨hfinal, hkeeps.trans ⟨hkeeps'.open_sockets, hkeeps'.records, hkeeps'.next_addr, hkeeps'.work_queue⟩⟩

/-- Processing the request of an allocated socket record never dereferences the head of an empty list. -/
theorem worker_process_item_success (io : Io) (now : UInt64 × UInt64) (hskinfo : newset.skinfo = some skinfo)
    (hsk : s.sockets.lookup skinfo = some sk) : ∃ s', s.worker_process_item io now newset = some s' := by
  obtain ⟨addr, setreq, _, timestamp⟩ := newset
  subst hskinfo
  simp only [worker_process_item, Option.bind_eq_bind, Option.bind_some, hsk]
  cases hdef : s.worker_defset io now.1 (is_persistent (some sk)) ⟨addr, setreq, some skinfo, timestamp⟩ with
  | none => exact send_response_success _ hsk
  | some s₁ =>
    have hkeeps := (worker_defset_step hdef).keeps.trans
      (s₁.listed_keeps skinfo now.2 ⟨addr, setreq, some skinfo, timestamp⟩)
    obtain ⟨sk', hsk', _⟩ := hkeeps.lookup hsk
    have hlist : (s₁.listed skinfo now.2 ⟨addr, setreq, some skinfo, timestamp⟩).slist setreq.path ≠ [] := by
      rw [listed, set_insert_slist, if_pos rfl]
      exact insert_sorted_ne_nil
    obtain ⟨s', happly⟩ := worker_apply_success io ⟨addr, setreq, some skinfo, now.2⟩ hlist hsk'
    exact ⟨s', happly⟩

end Process

end pwrapi.daemon.Daemon
