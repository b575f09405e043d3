import PowerApi.Daemon.WorkerSpec

open SortedList

namespace pwrapi.daemon

/-- What a socket record says about its client, as opposed to its changes and its counter. -/
def SocketInfo.identity (sk : SocketInfo) : Int × Ucred × PwrRole × Option String :=
  (sk.sockid, sk.cred, sk.role, sk.context_name)

namespace Daemon

/-- A step that leaves the sockets, the clients' identities and the queue alone. -/
structure Keeps (s s' : Daemon) : Prop where
  open_sockets : s'.open_sockets = s.open_sockets
  records : ∀ skinfo, (s'.sockets.lookup skinfo).map SocketInfo.identity =
    (s.sockets.lookup skinfo).map SocketInfo.identity
  next_addr : s.next_addr ≤ s'.next_addr
  work_queue : s'.work_queue = s.work_queue

theorem Keeps.refl (s : Daemon) : s.Keeps s := ⟨rfl, fun _ => rfl, Nat.le_refl _, rfl⟩

theorem Keeps.trans {s₁ s₂ s₃ : Daemon} (h : s₁.Keeps s₂) (h' : s₂.Keeps s₃) : s₁.Keeps s₃ where
  open_sockets := h'.open_sockets.trans h.open_sockets
  records skinfo := (h'.records skinfo).trans (h.records skinfo)
  next_addr := h.next_addr.trans h'.next_addr
  work_queue := h'.work_queue.trans h.work_queue

/-- A record stays allocated under the same socket number. -/
theorem Keeps.lookup {s s' : Daemon} (h : s.Keeps s') {skinfo : Nat} {sk : SocketInfo}
    (hsk : s.sockets.lookup skinfo = some sk) :
    ∃ sk', s'.sockets.lookup skinfo = some sk' ∧ sk'.identity = sk.identity := by
  have hrec := h.records skinfo
  rw [hsk, Option.map_some, Option.map_eq_some_iff] at hrec
  exact hrec

theorem Keeps.lookup_back {s s' : Daemon} (h : s.Keeps s') {skinfo : Nat} {sk' : SocketInfo}
    (hsk : s'.sockets.lookup skinfo = some sk') :
    ∃ sk, s.sockets.lookup skinfo = some sk ∧ sk.identity = sk'.identity := by
  have hrec := h.records skinfo
  rw [hsk, Option.map_some] at hrec
  exact Option.map_eq_some_iff.mp hrec.symm

theorem keeps_of_sockets_insert {s s' : Daemon} {skinfo : Nat} {sk : SocketInfo} (sk' : SocketInfo)
    (hsk : s.sockets.lookup skinfo = some sk) (hid : sk'.identity = sk.identity)
    (hsockets : s'.sockets = s.sockets.insert skinfo sk') (hopen : s'.open_sockets = s.open_sockets)
    (hnext : s.next_addr ≤ s'.next_addr) (hqueue : s'.work_queue = s.work_queue) : s.Keeps s' where
  open_sockets := hopen
  records skinfo' := by
    rw [hsockets, HashTable.lookup_insert_eq_ite]
    split
    · next h => rw [h, hsk, Option.map_some, Option.map_some, hid]
    · rfl
  next_addr := hnext
  work_queue := hqueue

theorem update_hash_keeps (s : Daemon) (hash : HashRef)
    (f : HashTable String SetInfo → HashTable String SetInfo) : s.Keeps (s.update_hash hash f) := by
  obtain hsame | hdefs | ⟨skinfo, sk, hsk, hinsert⟩ := s.update_hash_cases hash f
  · rw [hsame]
    exact .refl s
  · rw [hdefs]
    exact ⟨rfl, fun _ => rfl, Nat.le_refl _, rfl⟩
  · rw [hinsert]
    exact keeps_of_sockets_insert { sk with my_changes := f sk.my_changes } hsk rfl rfl rfl (Nat.le_refl _) rfl

theorem set_insert_keeps (s : Daemon) (setp : SetInfo) (hash : HashRef) : s.Keeps (s.set_insert setp hash) :=
  let h := s.update_hash_keeps hash (·.insert setp.setreq.path setp)
  ⟨h.open_sockets, h.records, h.next_addr, h.work_queue⟩

theorem set_remove_keeps (s : Daemon) (setp : SetInfo) (hash : HashRef) : s.Keeps (s.set_remove setp hash) :=
  let h := s.update_hash_keeps hash (·.erase setp.setreq.path)
  ⟨h.open_sockets, h.records, h.next_addr, h.work_queue⟩

/-- The content of a control file after an attempt to write a record's value to it. -/
def written_file (io : Io) (setp : SetInfo) (file : ControlFile) : ControlFile :=
  match io.write_fault setp.setreq.path with
  | some left => left
  | none => (write_attr_file setp.setreq.attr setp.setreq.data_type setp.setreq.value file).getD file

/-- Whether an attempt to write a record's value to a control file fails. -/
def write_fails (io : Io) (setp : SetInfo) (file : ControlFile) : Bool :=
  (io.write_fault setp.setreq.path).isSome ||
    (write_attr_file setp.setreq.attr setp.setreq.data_type setp.setreq.value file).isNone

/-- A write changes one file and the failure flag, and nothing else. -/
theorem write_attr_value_eq (io : Io) (setp : SetInfo) (s : Daemon) :
    s.write_attr_value io setp =
      (if write_fails io setp (s.files setp.setreq.path) then 1 else 0,
       { s with
         files := Function.update s.files setp.setreq.path (written_file io setp (s.files setp.setreq.path))
         io_failed := s.io_failed || write_fails io setp (s.files setp.setreq.path) }) := by
  cases hfault : io.write_fault setp.setreq.path with
  | some left => simp [write_attr_value, write_fails, written_file, hfault]
  | none =>
    cases hwrite : write_attr_file setp.setreq.attr setp.setreq.data_type setp.setreq.value
        (s.files setp.setreq.path) with
    | none => simp [write_attr_value, write_fails, written_file, hfault, hwrite]
    | some file => simp [write_attr_value, write_fails, written_file, hfault, hwrite]

theorem written_file_of_not_fails {io : Io} {setp : SetInfo} {file : ControlFile}
    (h : write_fails io setp file = false) :
    write_attr_file setp.setreq.attr setp.setreq.data_type setp.setreq.value file =
      some (written_file io setp file) := by
  simp only [write_fails, Bool.or_eq_false_iff, Option.isSome_eq_false_iff, Option.isNone_iff_eq_none,
    Option.isNone_eq_false_iff] at h
  obtain ⟨hfault, hwrite⟩ := h
  obtain ⟨written, hwritten⟩ := Option.isSome_iff_exists.mp hwrite
  simp [written_file, hfault, hwritten]

/-- Two states with the same changes, defaults and control files. -/
structure SameStore (s s' : Daemon) : Prop where
  all_changes : s'.all_changes = s.all_changes
  def_values : s'.def_values = s.def_values
  files : s'.files = s.files
  clock : s'.clock = s.clock
  io_failed : s'.io_failed = s.io_failed
  my_change : ∀ skinfo path, s'.my_change skinfo path = s.my_change skinfo path

theorem SameStore.slist_eq {s s' : Daemon} (h : s.SameStore s') (path : String) : s'.slist path = s.slist path := by
  rw [slist, slist, h.all_changes]

/-- The table of open sockets and the allocated socket records belong together. -/
structure Linked (s : Daemon) : Prop where
  open_iff : ∀ fd skinfo, s.open_sockets.lookup fd = some skinfo ↔
    ∃ sk, s.sockets.lookup skinfo = some sk ∧ sk.sockid = fd
  addr_lt : ∀ skinfo sk, s.sockets.lookup skinfo = some sk → skinfo < s.next_addr

/-- Every path with a list of changes has a default value. -/
def Defaulted (s : Daemon) : Prop :=
  ∀ path list, s.all_changes.lookup path = some list → (s.def_values.lookup path).isSome = true

/-- The invariant of the daemon's store between two operations. -/
structure StoreInvariant (s : Daemon) : Prop where
  balanced : s.Balanced
  linked : s.Linked
  defaulted : s.Defaulted

/-- A path is a key of `all_changes` exactly when its list has an entry. -/
theorem StoreInvariant.mem_keys_iff {s : Daemon} (h : s.StoreInvariant) {path : String} :
    path ∈ s.all_changes.keys ↔ s.slist path ≠ [] := by
  rw [Finmap.mem_keys, Finmap.mem_iff]
  constructor
  · rintro ⟨list, hlist⟩
    obtain ⟨d, hd⟩ := Option.isSome_iff_exists.mp (h.defaulted path list hlist)
    exact List.ne_nil_of_mem (h.balanced.mem_slist.mpr (Or.inl hd))
  · intro hne
    cases hlookup : s.all_changes.lookup path with
    | none => simp [slist, hlookup] at hne
    | some list => exact ⟨list, rfl⟩

theorem Linked.of_keeps {s s' : Daemon} (h : s.Linked) (hkeeps : s.Keeps s') : s'.Linked where
  open_iff fd skinfo := by
    rw [hkeeps.open_sockets, h.open_iff]
    constructor
    · rintro ⟨sk, hsk, rfl⟩
      obtain ⟨sk', hsk', hid⟩ := hkeeps.lookup hsk
      exact ⟨sk', hsk', congrArg Prod.fst hid⟩
    · rintro ⟨sk', hsk', rfl⟩
      obtain ⟨sk, hsk, hid⟩ := hkeeps.lookup_back hsk'
      exact ⟨sk, hsk, congrArg Prod.fst hid⟩
  addr_lt skinfo sk' hsk' := by
    obtain ⟨sk, hsk, _⟩ := hkeeps.lookup_back hsk'
    exact (h.addr_lt skinfo sk hsk).trans_le hkeeps.next_addr

/-- A listed path has a default value. -/
theorem Defaulted.of_mem {s : Daemon} (h : s.Defaulted) {path : String} {e : SetInfo}
    (he : e ∈ s.slist path) : ∃ d, s.def_values.lookup path = some d := by
  cases hlookup : s.all_changes.lookup path with
  | none => simp [slist, hlookup] at he
  | some list => exact Option.isSome_iff_exists.mp (h path list hlookup)

end Daemon

end pwrapi.daemon
