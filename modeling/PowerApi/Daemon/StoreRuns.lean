import PowerApi.Daemon.Numeric

open SortedList Execution

namespace pwrapi.daemon.Daemon

/-- The changes of a path in the tables of all open sockets. -/
def open_changes (s : Daemon) (path : String) : Multiset SetInfo :=
  (HashTable.values s.open_sockets).filterMap fun skinfo => s.my_change skinfo path

/-- The open sockets are exactly the allocated socket records, each once. -/
theorem Linked.open_values {s : Daemon} (h : s.Linked) : HashTable.values s.open_sockets = s.sockets.keys.val := by
  have hsockid : ∀ fd skinfo, s.open_sockets.lookup fd = some skinfo →
      ((s.sockets.lookup skinfo).map SocketInfo.sockid).getD 0 = fd := by
    intro fd skinfo hopen
    obtain ⟨sk, hsk, hfd⟩ := (h.open_iff fd skinfo).mp hopen
    rw [hsk, Option.map_some, Option.getD_some, hfd]
  have hnodup : (HashTable.values s.open_sockets).Nodup := (HashTable.nodup_map_values hsockid).of_map
  refine (Multiset.Nodup.ext hnodup s.sockets.keys.nodup).mpr fun skinfo => ?_
  rw [HashTable.mem_values, Finset.mem_val, Finmap.mem_keys, Finmap.mem_iff]
  constructor
  · rintro ⟨fd, hopen⟩
    obtain ⟨sk, hsk, _⟩ := (h.open_iff fd skinfo).mp hopen
    exact ⟨sk, hsk⟩
  · rintro ⟨sk, hsk⟩
    exact ⟨sk.sockid, (h.open_iff sk.sockid skinfo).mpr ⟨sk, hsk, rfl⟩⟩

theorem Linked.changes_eq {s : Daemon} (h : s.Linked) (path : String) : s.changes path = s.open_changes path := by
  rw [changes, HashTable.filterMap_values, open_changes, h.open_values]
  rfl

/-- The entries of a path that are in force: its default and the changes of the open sockets. -/
def in_force (s : Daemon) (path : String) : Multiset SetInfo :=
  ((s.def_values.lookup path).toList : Multiset SetInfo) + s.open_changes path

theorem StoreInvariant.slist_in_force {s : Daemon} (h : s.StoreInvariant) (path : String) :
    (s.slist path : Multiset SetInfo) = s.in_force path := by
  rw [h.balanced.slist_eq, live, h.linked.changes_eq, in_force]

/-- The lists of all paths hold what is in force, in the order of its priority. -/
structure Consistent (s : Daemon) : Prop where
  complete : ∀ path, (s.slist path : Multiset SetInfo) = s.in_force path
  once : ∀ path, (s.slist path).Nodup
  sorted : ∀ path, Sorted attr_value_comp (s.slist path)
  defaulted : ∀ client_socket skinfo path e, s.open_sockets.lookup client_socket = some skinfo →
    s.my_change skinfo path = some e → ∃ d, s.def_values.lookup path = some d ∧ d ∈ s.slist path

/-- An operation after which the store is consistent, on control files that
have any contents allowed, whatever they were after the last operation. -/
def StoreRunStep (pmlog : Pmlog) (usage : Usage) (allowed : (String → ControlFile) → Prop) (s : Daemon)
    (op : Operation) (s' : Daemon) : Prop :=
  ∃ files, allowed files ∧ Fits usage op ∧ s.Permitted op ∧ ({ s with files } : Daemon).perform pmlog op = some s'

section Runs

variable {pmlog : Pmlog} {usage : Usage} {s s' : Daemon} {op : Operation}

theorem consistent_of_ordered (hinv : s.StoreInvariant) (hordered : s.Ordered usage) : s.Consistent where
  complete := hinv.slist_in_force
  once path := (hinv.balanced.nodup path).of_map
  sorted := hordered.sorted
  defaulted client_socket skinfo path e _ he := by
    obtain ⟨d, hd⟩ := hinv.defaulted.of_mem (hinv.balanced.mem_slist.mpr (Or.inr ⟨skinfo, he⟩))
    exact ⟨d, hd, hinv.balanced.mem_slist.mpr (Or.inl hd)⟩

/-- What the files hold is no part of the store. -/
theorem SerialInvariant.with_files (hinv : s.SerialInvariant) (files : String → ControlFile) :
    ({ s with files } : Daemon).SerialInvariant where
  store := ⟨hinv.store.balanced.congr rfl rfl (Nat.le_refl _) (fun _ => rfl) (fun _ _ => rfl),
    ⟨hinv.store.linked.open_iff, hinv.store.linked.addr_lt⟩, hinv.store.defaulted⟩
  idle := hinv.idle

theorem Permitted.with_files (h : s.Permitted op) (files : String → ControlFile) :
    ({ s with files } : Daemon).Permitted op := by
  cases op <;> exact h

theorem store_run_step (hnumeric : ∀ path, Numeric (usage path).1)
    (hstep : StoreRunStep pmlog usage (HoldNumbers usage) s op s') (hinv : s.SerialInvariant ∧ s.Ordered usage) :
    s'.SerialInvariant ∧ s'.Ordered usage := by
  obtain ⟨files, hfiles, hfits, hpermitted, hperform⟩ := hstep
  obtain ⟨hserial, hordered⟩ := hinv
  have hserial' := hserial.with_files files
  have hordered' : ({ s with files } : Daemon).Ordered usage := hordered.of_slist fun _ => rfl
  obtain ⟨hstore, hnext⟩ := perform_step hserial' (hpermitted.with_files files) hperform
  exact ⟨hnext, hstore.ordered hnumeric hordered' hserial'.store hfiles hfits⟩

/-- In every state that operations lead to, the store is consistent and every
further operation finds the records and list heads that it dereferences. -/
theorem store_runs_consistent (pmlog : Pmlog) (usage : Usage) (files : String → ControlFile)
    (run : List (Operation × Daemon)) (hnumeric : ∀ path, Numeric (usage path).1)
    (hrun : EachStep (StoreRunStep pmlog usage (HoldNumbers usage)) (start files) run) :
    ∀ x ∈ run, x.2.Consistent ∧ ∀ op files', x.2.Permitted op →
      ∃ s', ({ x.2 with files := files' } : Daemon).perform pmlog op = some s' := by
  have hall := hrun.invariant (I := fun s => s.SerialInvariant ∧ s.Ordered usage)
    ⟨start_invariant files, start_ordered usage files⟩ fun _ _ _ hstep => store_run_step hnumeric hstep
  intro x hx
  obtain ⟨hserial, hordered⟩ := hall x hx
  refine ⟨consistent_of_ordered hserial.store hordered, fun op files' hpermitted => ?_⟩
  exact perform_success pmlog (hserial.with_files files') (hpermitted.with_files files')

end Runs

section Examples

/-- A client that identifies itself and then asks for a frequency of 5.0. -/
def frequency_request (data_type : PwrAttrDataType) (bits : UInt64) : List Operation :=
  [.connect 4 ⟨1000⟩, .request 4 (.PwrAUTH .APP "app") {} (1, 2),
    .request 4 (.PwrSET ⟨0, .FREQ_REQ, data_type, 0, ⟨bits⟩, "scaling_setspeed"⟩) {} (3, 4)]

/-- Every path is used for frequency requests, in the format of an integer. -/
def frequency_usage : Usage := fun _ => (.FREQ_REQ, .UINT64)

theorem frequency_usage_numeric (path : String) : Numeric (frequency_usage path).1 := by
  change Numeric .FREQ_REQ
  decide

def frequency_run : List (Operation × Daemon) :=
  run_of (perform some) (frequency_request .UINT64 5) (start fun _ => .uint64 10)

theorem frequency_run_steps :
    EachStep (StoreRunStep some frequency_usage (HoldNumbers frequency_usage)) (start fun _ => .uint64 10)
      frequency_run := by
  have hfits : EachStep (fun s op _ => Fits frequency_usage op ∧ s.Permitted op) (start fun _ => .uint64 10)
      frequency_run := by decide
  refine ((eachStep_run_of _ _ _).and hfits).imp fun s op s' h => ?_
  have hnumbers : HoldNumbers frequency_usage s.files := by
    intro path value _ hdouble
    cases hdouble
  exact ⟨s.files, hnumbers, h.2.1, h.2.2, h.1⟩

theorem store_runs_consistent_frequency_run :
    frequency_run ≠ [] ∧ ∀ x ∈ frequency_run, x.2.Consistent ∧ ∀ op files', x.2.Permitted op →
      ∃ s', ({ x.2 with files := files' } : Daemon).perform some op = some s' :=
  ⟨by decide, store_runs_consistent some frequency_usage (fun _ => .uint64 10) frequency_run
    frequency_usage_numeric frequency_run_steps⟩

/-- A control file that holds NaN makes a default that no value compares with. -/
theorem store_runs_not_sorted :
    ¬ ∀ usage files run, (∀ path, Numeric (usage path).1) →
      EachStep (StoreRunStep some usage fun _ => True) (start files) run → ∀ x ∈ run, x.2.Consistent := by
  intro hclaim
  let files : String → ControlFile := fun _ => .double ⟨0x7FF8000000000000⟩
  let run := run_of (perform some) (frequency_request .DOUBLE 0x4014000000000000) (start files)
  have hfits : EachStep (fun s op _ => Fits (fun _ => (.FREQ_REQ, .DOUBLE)) op ∧ s.Permitted op)
      (start files) run := by
    decide
  have hrun : EachStep (StoreRunStep some (fun _ => (.FREQ_REQ, .DOUBLE)) fun _ => True) (start files) run :=
    ((eachStep_run_of _ _ _).and hfits).imp fun s op s' h => ⟨s.files, trivial, h.2.1, h.2.2, h.1⟩
  have hunsorted : ∃ x ∈ run, ¬ Sorted attr_value_comp (x.2.slist "scaling_setspeed") := by decide
  obtain ⟨x, hx, hnot⟩ := hunsorted
  exact hnot ((hclaim _ files run (fun _ => by decide) hrun x hx).sorted "scaling_setspeed")

end Examples

end pwrapi.daemon.Daemon
