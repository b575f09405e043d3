import PowerApi.Daemon.Store

open SortedList

namespace pwrapi.daemon.Daemon

section Undo

/-- The content of a control file after the rollback of a change, given the entries that remain. -/
def undone_file (io : Io) (setp : SetInfo) (remaining : List SetInfo) (file : ControlFile) : ControlFile :=
  match remaining with
  | [] => file
  | top :: _ => if attr_value_comp setp top < 0 then written_file io top file else file

/-- Whether the rollback of a change attempts a write that fails. -/
def undo_fails (io : Io) (setp : SetInfo) (remaining : List SetInfo) (file : ControlFile) : Bool :=
  match remaining with
  | [] => false
  | top :: _ => decide (attr_value_comp setp top < 0) && write_fails io top file

/-- The state that `set_rollback` leads to. -/
def undo (io : Io) (s : Daemon) (setp : SetInfo) : Daemon :=
  let path := setp.setreq.path
  let remaining := remove SetInfo.addr (s.slist path) setp
  { s with
    all_changes := s.all_changes.insert path remaining
    files := Function.update s.files path (undone_file io setp remaining (s.files path))
    io_failed := s.io_failed || undo_fails io setp remaining (s.files path) }

theorem undo_slist (io : Io) (s : Daemon) (setp : SetInfo) (path : String) :
    (s.undo io setp).slist path =
      if path = setp.setreq.path then remove SetInfo.addr (s.slist path) setp else s.slist path := by
  rw [slist, undo, HashTable.lookup_insert_eq_ite]
  split
  · next h => rw [h, Option.getD_some]
  · rfl

theorem undo_files (io : Io) (s : Daemon) (setp : SetInfo) (path : String) :
    (s.undo io setp).files path =
      if path = setp.setreq.path then
        undone_file io setp (remove SetInfo.addr (s.slist path) setp) (s.files path)
      else s.files path := by
  by_cases h : path = setp.setreq.path
  · rw [if_pos h, h]
    exact Function.update_self _ _ _
  · rw [if_neg h]
    exact Function.update_of_ne h _ _

/-- `set_rollback` succeeds when an entry remains, and it only touches the record's path. -/
theorem set_rollback_eq {io : Io} {setp : SetInfo} {s : Daemon}
    (hpath : ∀ e ∈ s.slist setp.setreq.path, e.setreq.path = setp.setreq.path)
    (hremains : remove SetInfo.addr (s.slist setp.setreq.path) setp ≠ []) :
    s.set_rollback io setp = some (s.undo io setp) := by
  obtain ⟨top, rest, hcons⟩ := List.exists_cons_of_ne_nil hremains
  have hslist : (s.set_remove setp .null).slist setp.setreq.path = top :: rest := by
    rw [set_remove_slist, if_pos rfl, hcons]
  have htop : top.setreq.path = setp.setreq.path := by
    refine hpath top ((remove_sublist SetInfo.addr _ setp).subset ?_)
    rw [hcons]
    exact List.mem_cons_self
  have hremove : s.set_remove setp .null =
      { s with all_changes := s.all_changes.insert setp.setreq.path (top :: rest) } := by
    rw [← hcons]
    rfl
  simp only [set_rollback, hslist]
  by_cases hcomp : attr_value_comp setp top < 0
  · rw [if_pos hcomp, write_attr_value_eq, hremove]
    simp only [undo, hcons, undone_file, undo_fails, hcomp, if_true, decide_true, Bool.true_and, htop]
  · rw [if_neg hcomp, hremove]
    simp [undo, hcons, undone_file, undo_fails, hcomp]

/-- Two rollbacks on different paths each see the state before both. -/
theorem undo_undo {e₁ e₂ : SetInfo} (hne : e₁.setreq.path ≠ e₂.setreq.path) (io : Io) (s : Daemon) :
    (s.undo io e₁).undo io e₂ =
      let left₁ := remove SetInfo.addr (s.slist e₁.setreq.path) e₁
      let left₂ := remove SetInfo.addr (s.slist e₂.setreq.path) e₂
      let file₁ := s.files e₁.setreq.path
      let file₂ := s.files e₂.setreq.path
      { s with
        all_changes := (s.all_changes.insert e₁.setreq.path left₁).insert e₂.setreq.path left₂
        files := Function.update (Function.update s.files e₁.setreq.path (undone_file io e₁ left₁ file₁))
          e₂.setreq.path (undone_file io e₂ left₂ file₂)
        io_failed := s.io_failed || undo_fails io e₁ left₁ file₁ || undo_fails io e₂ left₂ file₂ } := by
  have hslist : (s.undo io e₁).slist e₂.setreq.path = s.slist e₂.setreq.path := by
    rw [undo_slist, if_neg (Ne.symm hne)]
  have hfile : (s.undo io e₁).files e₂.setreq.path = s.files e₂.setreq.path := by
    rw [undo_files, if_neg (Ne.symm hne)]
  rw [undo, hslist, hfile]
  rfl

/-- The rollbacks of changes of different paths may be exchanged. -/
theorem undo_comm {e₁ e₂ : SetInfo} (hne : e₁.setreq.path ≠ e₂.setreq.path) (io : Io) (s : Daemon) :
    (s.undo io e₁).undo io e₂ = (s.undo io e₂).undo io e₁ := by
  rw [undo_undo hne, undo_undo (Ne.symm hne)]
  dsimp only
  congr 1
  · exact HashTable.insert_comm _ hne _ _
  · exact Function.update_comm hne _ _ _
  · exact Bool.or_right_comm _ _ _

end Undo

section UndoAll

variable {io : Io} {s : Daemon} {order : List SetInfo} {path : String}

/-- The rollbacks of changes of other paths leave the list and the file of a path alone. -/
theorem foldl_undo_of_ne (io : Io) (s : Daemon) (h : ∀ e ∈ order, e.setreq.path ≠ path) :
    (order.foldl (undo io) s).slist path = s.slist path ∧
      (order.foldl (undo io) s).files path = s.files path := by
  induction order generalizing s with
  | nil => exact ⟨rfl, rfl⟩
  | cons e rest ih =>
    obtain ⟨he, hrest⟩ := List.forall_mem_cons.mp h
    obtain ⟨hslist, hfile⟩ := ih (s.undo io e) hrest
    rw [List.foldl_cons, hslist, hfile, undo_slist, undo_files, if_neg (Ne.symm he), if_neg (Ne.symm he)]
    exact ⟨rfl, rfl⟩

/-- With one change for each path, the rollback of a change is not disturbed by the others. -/
theorem foldl_undo_of_mem (hnodup : (order.map fun e => e.setreq.path).Nodup) {e : SetInfo} (he : e ∈ order) :
    (order.foldl (undo io) s).slist e.setreq.path = remove SetInfo.addr (s.slist e.setreq.path) e ∧
      (order.foldl (undo io) s).files e.setreq.path =
        undone_file io e (remove SetInfo.addr (s.slist e.setreq.path) e) (s.files e.setreq.path) := by
  induction order generalizing s with
  | nil => simp at he
  | cons x rest ih =>
    obtain ⟨hx, hrest⟩ := List.nodup_cons.mp hnodup
    have hne : ∀ e' ∈ rest, e'.setreq.path ≠ x.setreq.path := by
      intro e' he' heq
      exact hx (List.mem_map.mpr ⟨e', he', heq⟩)
    rw [List.foldl_cons]
    obtain rfl | he := List.mem_cons.mp he
    · obtain ⟨hslist, hfile⟩ := foldl_undo_of_ne io (s.undo io e) hne
      rw [hslist, hfile, undo_slist, undo_files, if_pos rfl, if_pos rfl]
      exact ⟨rfl, rfl⟩
    · obtain ⟨hslist, hfile⟩ := ih (s := s.undo io x) hrest he
      rw [hslist, hfile, undo_slist, undo_files, if_neg (hne e he), if_neg (hne e he)]
      exact ⟨rfl, rfl⟩

/-- No access has failed after the rollbacks when none had before and none of them attempts a write that fails. -/
theorem foldl_undo_no_failure_iff (hnodup : (order.map fun e => e.setreq.path).Nodup) :
    (order.foldl (undo io) s).io_failed = false ↔ s.io_failed = false ∧ ∀ e ∈ order,
      undo_fails io e (remove SetInfo.addr (s.slist e.setreq.path) e) (s.files e.setreq.path) = false := by
  induction order generalizing s with
  | nil => simp
  | cons x rest ih =>
    obtain ⟨hx, hrest⟩ := List.nodup_cons.mp hnodup
    have hone : ∀ e ∈ rest, (undo_fails io e (remove SetInfo.addr ((s.undo io x).slist e.setreq.path) e)
        ((s.undo io x).files e.setreq.path) = false ↔
          undo_fails io e (remove SetInfo.addr (s.slist e.setreq.path) e) (s.files e.setreq.path) = false) := by
      intro e he
      have hne : e.setreq.path ≠ x.setreq.path := fun heq => hx (List.mem_map.mpr ⟨e, he, heq⟩)
      rw [undo_slist, undo_files, if_neg hne, if_neg hne]
    have hfirst : (s.undo io x).io_failed = false ↔ s.io_failed = false ∧
        undo_fails io x (remove SetInfo.addr (s.slist x.setreq.path) x) (s.files x.setreq.path) = false :=
      Bool.or_eq_false_iff
    rw [List.foldl_cons, ih hrest, hfirst, List.forall_mem_cons, forall₂_congr hone, and_assoc]

/-- The rest of the state is not touched by rollbacks. -/
theorem foldl_undo_frame (io : Io) (s : Daemon) (order : List SetInfo) :
    (order.foldl (undo io) s).open_sockets = s.open_sockets ∧
      (order.foldl (undo io) s).def_values = s.def_values ∧
      (order.foldl (undo io) s).next_addr = s.next_addr ∧
      (order.foldl (undo io) s).work_queue = s.work_queue ∧
      (order.foldl (undo io) s).clock = s.clock ∧ (order.foldl (undo io) s).sent = s.sent := by
  induction order generalizing s with
  | nil => exact ⟨rfl, rfl, rfl, rfl, rfl, rfl⟩
  | cons e rest ih => exact ih (s.undo io e)

theorem foldl_undo_perm {order' : List SetInfo} (hperm : order.Perm order')
    (hnodup : (order.map fun e => e.setreq.path).Nodup) :
    order.foldl (undo io) s = order'.foldl (undo io) s := by
  refine hperm.foldl_eq' ?_ s
  intro e he e' he' z
  by_cases hee : e = e'
  · rw [hee]
  · have hne : e.setreq.path ≠ e'.setreq.path := fun heq => hee (List.inj_on_of_nodup_map hnodup he he' heq)
    exact undo_comm hne io z

/-- A list of the path that is stored after the rollbacks belongs to a path that was stored before. -/
theorem foldl_undo_lookup {list : List SetInfo} (h : (order.foldl (undo io) s).all_changes.lookup path = some list) :
    (∃ list', s.all_changes.lookup path = some list') ∨ ∃ e ∈ order, e.setreq.path = path := by
  induction order generalizing s with
  | nil => exact Or.inl ⟨list, h⟩
  | cons x rest ih =>
    obtain ⟨list', hlist'⟩ | ⟨e, he, hpath⟩ := ih (s := s.undo io x) h
    · rw [undo, HashTable.lookup_insert_eq_ite] at hlist'
      by_cases hx : path = x.setreq.path
      · exact Or.inr ⟨x, List.mem_cons_self, hx.symm⟩
      · rw [if_neg hx] at hlist'
        exact Or.inl ⟨list', hlist'⟩
    · exact Or.inr ⟨e, List.mem_cons_of_mem x he, hpath⟩

theorem foldl_undo_sockets (io : Io) (s : Daemon) (order : List SetInfo) (open_sockets : HashTable Int Nat)
    (sockets : HashTable Nat SocketInfo) :
    order.foldl (undo io) { s with open_sockets, sockets } =
      { order.foldl (undo io) s with open_sockets, sockets } := by
  induction order generalizing s with
  | nil => rfl
  | cons e rest ih =>
    have hone : ({ s with open_sockets, sockets } : Daemon).undo io e =
      { s.undo io e with open_sockets, sockets } := rfl
    rw [List.foldl_cons, hone, ih]
    rfl

end UndoAll

section Destruct

variable {io : Io} {s : Daemon} {order : List SetInfo} {skinfo : Nat} {fd : Int}

/-- Changing the table of a socket record that is destroyed afterwards makes no difference. -/
theorem update_hash_erase (s : Daemon) (skinfo : Nat) (f : HashTable String SetInfo → HashTable String SetInfo) :
    ∃ sockets, s.update_hash (.my_changes skinfo) f = { s with sockets } ∧
      sockets.erase skinfo = s.sockets.erase skinfo := by
  cases hsk : s.sockets.lookup skinfo with
  | none => exact ⟨s.sockets, by simp [update_hash, hsk], rfl⟩
  | some sk => exact ⟨_, update_hash_my_changes f hsk, HashTable.erase_insert_self _ _ _⟩

/-- The changes of a socket are rolled back one by one when an entry remains in each of the lists. -/
theorem rollback_changes_eq (io : Io) (skinfo : Nat)
    (hpath : ∀ e ∈ order, ∀ e' ∈ s.slist e.setreq.path, e'.setreq.path = e.setreq.path)
    (hremains : ∀ e ∈ order, remove SetInfo.addr (s.slist e.setreq.path) e ≠ [])
    (hnodup : (order.map fun e => e.setreq.path).Nodup) :
    ∃ s', rollback_changes io skinfo order s = some s' ∧
      ({ s' with sockets := s'.sockets.erase skinfo } : Daemon) =
        { order.foldl (undo io) s with sockets := s.sockets.erase skinfo } := by
  induction order generalizing s with
  | nil => exact ⟨s, rfl, rfl⟩
  | cons e rest ih =>
    obtain ⟨hpath_e, hpath_rest⟩ := List.forall_mem_cons.mp hpath
    obtain ⟨hremains_e, hremains_rest⟩ := List.forall_mem_cons.mp hremains
    obtain ⟨he, hrest⟩ := List.nodup_cons.mp hnodup
    obtain ⟨sockets, hupdate, herase⟩ :=
      (s.undo io e).update_hash_erase skinfo (·.erase e.setreq.path)
    have hslist : ∀ e' ∈ rest, ({ s.undo io e with sockets } : Daemon).slist e'.setreq.path =
        s.slist e'.setreq.path := by
      intro e' he'
      have hne : e'.setreq.path ≠ e.setreq.path := fun heq => he (List.mem_map.mpr ⟨e', he', heq⟩)
      exact (undo_slist io s e _).trans (if_neg hne)
    obtain ⟨s', hs', heq⟩ := ih (s := { s.undo io e with sockets })
      (fun e' he' => by rw [hslist e' he']; exact hpath_rest e' he')
      (fun e' he' => by rw [hslist e' he']; exact hremains_rest e' he') hrest
    refine ⟨s', ?_, ?_⟩
    · rw [rollback_changes, set_rollback_eq hpath_e hremains_e, Option.bind_eq_bind, Option.bind_some, hupdate, hs']
    · obtain ⟨hopen, _⟩ := foldl_undo_frame io (s.undo io e) rest
      rw [heq, foldl_undo_sockets, List.foldl_cons, herase]
      dsimp only
      rw [hopen]
      rfl

theorem mem_order (horder : IterationOrder order fd s) (hlinked : s.Linked)
    (hopen : s.open_sockets.lookup fd = some skinfo) {e : SetInfo} :
    e ∈ order ↔ ∃ path, s.my_change skinfo path = some e := by
  obtain ⟨sk, hsk, _⟩ := (hlinked.open_iff fd skinfo).mp hopen
  rw [← Multiset.mem_coe, horder skinfo hopen sk hsk, HashTable.mem_values]
  simp [my_change, hsk]

theorem nodup_order (horder : IterationOrder order fd s) (hinv : s.StoreInvariant)
    (hopen : s.open_sockets.lookup fd = some skinfo) : (order.map fun e => e.setreq.path).Nodup := by
  obtain ⟨sk, hsk, _⟩ := (hinv.linked.open_iff fd skinfo).mp hopen
  rw [← Multiset.coe_nodup, ← Multiset.map_coe, horder skinfo hopen sk hsk]
  refine HashTable.nodup_map_values fun path e he => ?_
  exact (hinv.balanced.change_entry skinfo path e (by simp [my_change, hsk, he])).1

/-- The default of the path remains when a change is taken out of its list. -/
theorem StoreInvariant.remains (hinv : s.StoreInvariant) {path : String} {e : SetInfo}
    (he : s.my_change skinfo path = some e) : remove SetInfo.addr (s.slist path) e ≠ [] := by
  have hmem : e ∈ s.slist path := hinv.balanced.mem_slist.mpr (Or.inr ⟨skinfo, he⟩)
  obtain ⟨d, hd⟩ := hinv.defaulted.of_mem hmem
  have hdmem : d ∈ e :: remove SetInfo.addr (s.slist path) e :=
    (perm_cons_remove (hinv.balanced.nodup path) hmem).mem_iff.mp (hinv.balanced.mem_slist.mpr (Or.inl hd))
  have hne : d ≠ e := by
    rintro rfl
    have hnone := (hinv.balanced.def_entry path d hd).2
    rw [(hinv.balanced.change_entry skinfo path d he).2] at hnone
    cases hnone
  obtain hde | hdrest := List.mem_cons.mp hdmem
  · exact absurd hde hne
  · exact List.ne_nil_of_mem hdrest

/-- The state that `socket_destruct` leads to. -/
def destructed (io : Io) (order : List SetInfo) (fd : Int) (skinfo : Nat) (s : Daemon) : Daemon :=
  { order.foldl (undo io) s with
    open_sockets := s.open_sockets.erase fd
    sockets := s.sockets.erase skinfo }

/-- Closing an open socket succeeds, whatever the control files do. -/
theorem socket_destruct_eq (io : Io) (horder : IterationOrder order fd s) (hinv : s.StoreInvariant)
    (hopen : s.open_sockets.lookup fd = some skinfo) :
    s.socket_destruct io order fd = some (destructed io order fd skinfo s) := by
  have hchange : ∀ e ∈ order, s.my_change skinfo e.setreq.path = some e := by
    intro e he
    obtain ⟨path, hmine⟩ := (mem_order horder hinv.linked hopen).mp he
    rwa [(hinv.balanced.change_entry skinfo path e hmine).1]
  obtain ⟨s', hs', heq⟩ := rollback_changes_eq (s := { s with open_sockets := s.open_sockets.erase fd }) io skinfo
    (fun e _ e' he' => hinv.balanced.path_eq he') (fun e he => hinv.remains (hchange e he))
    (nodup_order horder hinv hopen)
  simp only [socket_destruct, hopen, hs', Option.bind_eq_bind, Option.bind_some]
  rw [heq, foldl_undo_sockets]
  rfl

/-- What `socket_destruct` does to each path, in terms of the change that the socket has of it. -/
structure Destructs (io : Io) (fd : Int) (skinfo : Nat) (s s' : Daemon) : Prop where
  open_sockets : s'.open_sockets = s.open_sockets.erase fd
  sockets : s'.sockets = s.sockets.erase skinfo
  def_values : s'.def_values = s.def_values
  next_addr : s'.next_addr = s.next_addr
  work_queue : s'.work_queue = s.work_queue
  clock : s'.clock = s.clock
  sent : s'.sent = s.sent
  touched : ∀ path e, s.my_change skinfo path = some e →
    s'.slist path = remove SetInfo.addr (s.slist path) e ∧
      s'.files path = undone_file io e (remove SetInfo.addr (s.slist path) e) (s.files path)
  untouched : ∀ path, s.my_change skinfo path = none →
    s'.slist path = s.slist path ∧ s'.files path = s.files path
  listed : ∀ path list, s'.all_changes.lookup path = some list → ∃ list', s.all_changes.lookup path = some list'
  no_failure : s'.io_failed = false ↔ s.io_failed = false ∧ ∀ path e, s.my_change skinfo path = some e →
    undo_fails io e (remove SetInfo.addr (s.slist path) e) (s.files path) = false

theorem destructed_destructs (io : Io) (horder : IterationOrder order fd s) (hinv : s.StoreInvariant)
    (hopen : s.open_sockets.lookup fd = some skinfo) : s.Destructs io fd skinfo (destructed io order fd skinfo s) := by
  obtain ⟨_, hdef, hnext, hqueue, hclock, hsent⟩ := foldl_undo_frame io s order
  have hnodup := nodup_order horder hinv hopen
  have hmem : ∀ path e, s.my_change skinfo path = some e → e.setreq.path = path ∧ e ∈ order := fun path e he =>
    ⟨(hinv.balanced.change_entry skinfo path e he).1, (mem_order horder hinv.linked hopen).mpr ⟨path, he⟩⟩
  have hchange : ∀ e ∈ order, s.my_change skinfo e.setreq.path = some e := by
    intro e he
    obtain ⟨path, hmine⟩ := (mem_order horder hinv.linked hopen).mp he
    rwa [(hmem path e hmine).1]
  refine ⟨rfl, rfl, hdef, hnext, hqueue, hclock, hsent, ?_, ?_, ?_, ?_⟩
  · intro path e he
    obtain ⟨rfl, hin⟩ := hmem path e he
    exact foldl_undo_of_mem hnodup hin
  · intro path hnone
    refine foldl_undo_of_ne io s fun e he hpath => ?_
    rw [← hpath, hchange e he] at hnone
    cases hnone
  · intro path list hlist
    obtain hold | ⟨e, he, rfl⟩ := foldl_undo_lookup hlist
    · exact hold
    · have hslist : e ∈ s.slist e.setreq.path := hinv.balanced.mem_slist.mpr (Or.inr ⟨skinfo, hchange e he⟩)
      cases hlookup : s.all_changes.lookup e.setreq.path with
      | none => simp [slist, hlookup] at hslist
      | some list' => exact ⟨list', rfl⟩
  · refine (foldl_undo_no_failure_iff hnodup).trans (and_congr_right fun _ => ?_)
    constructor
    · intro hall path e he
      obtain ⟨rfl, hin⟩ := hmem path e he
      exact hall e hin
    · exact fun hall e he => hall e.setreq.path e (hchange e he)

section Invariant

variable {s' : Daemon}

theorem Destructs.my_change (h : s.Destructs io fd skinfo s') (skinfo' : Nat) (path : String) :
    s'.my_change skinfo' path = if skinfo' = skinfo then none else s.my_change skinfo' path := by
  rw [Daemon.my_change, h.sockets, HashTable.lookup_erase_eq_ite]
  split
  · rfl
  · rfl

theorem Destructs.changes (h : s.Destructs io fd skinfo s') (path : String) :
    s'.changes path = s.others skinfo path := by
  rw [Daemon.changes, h.sockets, others]

/-- The list of a path afterwards is what remains of the list before. -/
theorem Destructs.slist_sublist (h : s.Destructs io fd skinfo s') (path : String) :
    (s'.slist path).Sublist (s.slist path) := by
  cases hmine : s.my_change skinfo path with
  | none =>
    rw [(h.untouched path hmine).1]
  | some e =>
    rw [(h.touched path e hmine).1]
    exact remove_sublist _ _ _

theorem Destructs.balanced (h : s.Destructs io fd skinfo s') (hb : s.Balanced) {sk : SocketInfo}
    (hsk : s.sockets.lookup skinfo = some sk) : s'.Balanced where
  slist_eq path := by
    rw [live, h.def_values, h.changes]
    have hold := hb.slist_eq path
    rw [live, changes_eq hsk] at hold
    cases hmine : s.my_change skinfo path with
    | none =>
      rw [(h.untouched path hmine).1, hold, hmine]
      simp
    | some e =>
      have hpath := (hb.change_entry skinfo path e hmine).1
      have hmem : e ∈ s.slist path := hb.mem_slist.mpr (Or.inr ⟨skinfo, hmine⟩)
      have hremove := Multiset.coe_eq_coe.mpr (perm_cons_remove (hb.nodup path) hmem)
      rw [(h.touched path e hmine).1]
      rw [hold, hmine, ← Multiset.cons_coe] at hremove
      refine (Multiset.cons_inj_right e).mp (hremove.symm.trans ?_)
      rw [Option.toList_some, Multiset.coe_singleton, Multiset.singleton_add, Multiset.add_cons]
  nodup path := (hb.nodup path).sublist ((h.slist_sublist path).map _)
  addr_lt path e he := by
    rw [h.next_addr]
    exact hb.addr_lt path e ((h.slist_sublist path).subset he)
  def_entry path d hd := hb.def_entry path d (by rwa [h.def_values] at hd)
  change_entry skinfo' path e he := by
    rw [h.my_change] at he
    split at he
    · cases he
    · exact hb.change_entry skinfo' path e he

theorem Destructs.linked (h : s.Destructs io fd skinfo s') (hlinked : s.Linked)
    (hopen : s.open_sockets.lookup fd = some skinfo) : s'.Linked where
  open_iff fd' skinfo' := by
    obtain ⟨sk, hsk, hfd⟩ := (hlinked.open_iff fd skinfo).mp hopen
    rw [h.open_sockets, h.sockets, HashTable.lookup_erase_eq_ite, HashTable.lookup_erase_eq_ite]
    by_cases hsame : skinfo' = skinfo
    · subst hsame
      simp only [if_true, reduceCtorEq, false_and, exists_false, iff_false]
      split
      · simp
      · next hne =>
        rw [hlinked.open_iff]
        rintro ⟨sk', hsk', hfd'⟩
        rw [hsk] at hsk'
        cases hsk'
        exact hne (hfd'.symm.trans hfd)
    · rw [if_neg hsame]
      split
      · next heq =>
        subst heq
        constructor
        · intro hcontra
          cases hcontra
        · intro hother
          have hboth := (hlinked.open_iff fd' skinfo').mpr hother
          rw [hopen] at hboth
          cases hboth
          exact absurd rfl hsame
      · exact hlinked.open_iff fd' skinfo'
  addr_lt skinfo' sk' hsk' := by
    rw [h.sockets, HashTable.lookup_erase_eq_ite] at hsk'
    split at hsk'
    · cases hsk'
    · rw [h.next_addr]
      exact hlinked.addr_lt skinfo' sk' hsk'

/-- Closing a socket keeps the store's invariant. -/
theorem Destructs.invariant (h : s.Destructs io fd skinfo s') (hinv : s.StoreInvariant)
    (hopen : s.open_sockets.lookup fd = some skinfo) : s'.StoreInvariant where
  balanced := by
    obtain ⟨sk, hsk, _⟩ := (hinv.linked.open_iff fd skinfo).mp hopen
    exact h.balanced hinv.balanced hsk
  linked := h.linked hinv.linked hopen
  defaulted path list hlist := by
    obtain ⟨list', hlist'⟩ := h.listed path list hlist
    rw [h.def_values]
    exact hinv.defaulted path list' hlist'

end Invariant

end Destruct

end pwrapi.daemon.Daemon
