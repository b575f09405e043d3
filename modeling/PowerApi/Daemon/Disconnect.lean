import PowerApi.Daemon.HeadRuns

open SortedList Execution

namespace pwrapi.daemon.Daemon

variable {usage : Usage} {io : Io} {client_socket : Int} {skinfo : Nat} {s s' : Daemon}

/-- A closed socket's entries are gone, and the others keep their order. -/
theorem Destructs.slist_eq (h : s.Destructs io client_socket skinfo s') (hb : s.Balanced) (path : String) :
    s'.slist path = (s.slist path).filter fun e => decide (e.skinfo ≠ some skinfo) := by
  cases hmine : s.my_change skinfo path with
  | none => rw [(h.untouched path hmine).1, hb.filter_of_no_change hmine]
  | some e => rw [(h.touched path e hmine).1, hb.remove_change hmine]

/-- The state after closing a socket does not depend on the order in which its changes are visited. -/
theorem destructed_order {order order' : List SetInfo} (hinv : s.StoreInvariant)
    (hopen : s.open_sockets.lookup client_socket = some skinfo) (horder : s.IterationOrder order client_socket)
    (horder' : s.IterationOrder order' client_socket) :
    destructed io order client_socket skinfo s = destructed io order' client_socket skinfo s := by
  obtain ⟨sk, hsk, _⟩ := (hinv.linked.open_iff client_socket skinfo).mp hopen
  have hperm : order.Perm order' :=
    Multiset.coe_eq_coe.mp ((horder skinfo hopen sk hsk).trans (horder' skinfo hopen sk hsk).symm)
  rw [destructed, destructed, foldl_undo_perm hperm (nodup_order horder hinv hopen)]

/-- Every new head that the rollback of a socket's changes writes can be written. -/
def WritesHeads (io : Io) (s : Daemon) (skinfo : Nat) : Prop :=
  ∀ path ∈ s.all_changes.keys, ∀ e ∈ s.my_change skinfo path, ∀ top ∈ (without skinfo (s.slist path)).head?,
    attr_value_comp e top < 0 → write_fails io top (s.files path) = false

instance (io : Io) (s : Daemon) (skinfo : Nat) : Decidable (s.WritesHeads io skinfo) :=
  inferInstanceAs (Decidable (∀ path ∈ s.all_changes.keys, ∀ e ∈ s.my_change skinfo path,
    ∀ top ∈ (without skinfo (s.slist path)).head?, attr_value_comp e top < 0 → write_fails io top (s.files path) = false))

theorem WritesHeads.not_undo_fails (h : s.WritesHeads io skinfo) (hinv : s.StoreInvariant) {path : String}
    {e : SetInfo} (hmine : s.my_change skinfo path = some e) :
    undo_fails io e (remove SetInfo.addr (s.slist path) e) (s.files path) = false := by
  have hmem : e ∈ s.slist path := hinv.balanced.mem_slist.mpr (Or.inr ⟨skinfo, hmine⟩)
  have hwrites := h path (hinv.mem_keys_iff.mpr (List.ne_nil_of_mem hmem)) e hmine
  rw [without, ← hinv.balanced.remove_change hmine] at hwrites
  cases hremaining : remove SetInfo.addr (s.slist path) e with
  | nil => rfl
  | cons top rest =>
    rw [hremaining] at hwrites
    rw [undo_fails, Bool.and_eq_false_imp, decide_eq_true_iff]
    exact hwrites top rfl

/-- Closing a socket takes its entries out of the lists and does nothing else, in
whatever order they are visited, without a failing write where the new heads can
be written. It brings the files that the entries touched to the new heads exactly
when each of these that is written is reproduced by its file. -/
theorem socket_destruct_rolls_back_iff (usage : Usage) (io : Io) (client_socket : Int) (order : List SetInfo)
    (skinfo : Nat) (s : Daemon) (hnumeric : ∀ path, Numeric (usage path).1) (hinv : s.StoreInvariant)
    (hordered : s.Ordered usage) (hfollow : s.FilesFollowHeads)
    (hopen : s.open_sockets.lookup client_socket = some skinfo) (horder : s.IterationOrder order client_socket)
    (hwrites : s.WritesHeads io skinfo) :
    ∃ s', s.socket_destruct io order client_socket = some s' ∧ (s'.io_failed = false ↔ s.io_failed = false) ∧
      (∀ path, s'.slist path = (s.slist path).filter fun e => decide (e.skinfo ≠ some skinfo)) ∧
      s'.def_values = s.def_values ∧
      (∀ skinfo' path, skinfo' ≠ skinfo → s'.my_change skinfo' path = s.my_change skinfo' path) ∧
      (∀ path, s.my_change skinfo path = none → s'.files path = s.files path) ∧
      (∀ order', s.IterationOrder order' client_socket → s.socket_destruct io order' client_socket = some s') ∧
      ((∀ path e, s.my_change skinfo path = some e → s'.FollowsHead path) ↔ s.RestoresHeads skinfo) := by
  have hdestructs := destructed_destructs io horder hinv hopen
  have hundo : ∀ path e, s.my_change skinfo path = some e →
      undo_fails io e (remove SetInfo.addr (s.slist path) e) (s.files path) = false :=
    fun path e hmine => hwrites.not_undo_fails hinv hmine
  refine ⟨destructed io order client_socket skinfo s, socket_destruct_eq io horder hinv hopen,
    hdestructs.no_failure.trans (and_iff_left hundo), hdestructs.slist_eq hinv.balanced, hdestructs.def_values,
    ?_, ?_, ?_, hdestructs.follow_heads_iff hnumeric hinv hordered hfollow hundo⟩
  · intro skinfo' path hne
    rw [hdestructs.my_change, if_neg hne]
  · intro path hnone
    exact (hdestructs.untouched path hnone).2
  · intro order' horder'
    rw [destructed_order hinv hopen horder horder']
    exact socket_destruct_eq io horder' hinv hopen

/-- The state after one client's frequency request has been served. -/
def frequency_requested : Daemon := final (start fun _ => .uint64 10) frequency_run

/-- The client disconnects, and its path is at the default again. -/
theorem socket_destruct_rolls_back_iff_frequency_requested :
    ∃ s', frequency_requested.socket_destruct {} (frequency_requested.slist "scaling_setspeed").dropLast 4 = some s' ∧
      s'.io_failed = false ∧ s'.slist "scaling_setspeed" = (frequency_requested.slist "scaling_setspeed").drop 1 ∧
      s'.def_values = frequency_requested.def_values ∧ s'.FollowsHead "scaling_setspeed" := by
  have hnumbers : HoldNumbers frequency_usage fun _ => .uint64 10 := by
    intro path value _ hdouble
    cases hdouble
  have hinv : frequency_requested.FileInvariant frequency_usage :=
    FileInvariant.of_run frequency_usage_numeric hnumbers (by decide)
  obtain ⟨s', hs', hfailed, hslist, hdef, _, _, _, hfollows⟩ := socket_destruct_rolls_back_iff frequency_usage {} 4
    (frequency_requested.slist "scaling_setspeed").dropLast 0 frequency_requested frequency_usage_numeric
    hinv.serial.store hinv.ordered (by decide) (by decide) (by decide) (by decide)
  refine ⟨s', hs', hfailed.mpr (by decide), (hslist _).trans (by decide), hdef, ?_⟩
  obtain ⟨e, hmine⟩ : ∃ e, frequency_requested.my_change 0 "scaling_setspeed" = some e :=
    Option.isSome_iff_exists.mp (by decide)
  exact hfollows.mpr (by decide) "scaling_setspeed" e hmine

/-- A client sets 0.1 where the default is 0.1234567 and disconnects: the file is left at 0.123457. -/
theorem socket_destruct_rounds_default :
    ¬ ∀ usage io client_socket order skinfo s, (∀ path, Numeric (usage path).1) → StoreInvariant s →
      Ordered usage s → s.FilesFollowHeads → s.open_sockets.lookup client_socket = some skinfo →
      s.IterationOrder order client_socket → s.WritesHeads io skinfo →
      ∃ s', s.socket_destruct io order client_socket = some s' ∧
        ∀ path e, s.my_change skinfo path = some e → s'.FollowsHead path := by
  intro hclaim
  let usage : Usage := fun _ => (.FREQ_REQ, .DOUBLE)
  let files : String → ControlFile := fun _ => .double ⟨0x3FBF9ADBB8F8DA72⟩
  let run := run_of (perform some) (frequency_request .DOUBLE 0x3FB999999999999A) (start files)
  let s := final (start files) run
  have hnumeric : ∀ path, Numeric (usage path).1 := fun _ => by decide
  have hnumbers : HoldNumbers usage files := by
    intro path value hread _
    cases hread
    decide
  have hinv : s.FileInvariant usage := FileInvariant.of_run hnumeric hnumbers (by decide)
  obtain ⟨s', hs', hfollows⟩ := hclaim usage {} 4 (s.slist "scaling_setspeed").dropLast 0 s hnumeric hinv.serial.store
    hinv.ordered (by decide) (by decide) (by decide) (by decide)
  obtain ⟨e, hmine⟩ : ∃ e, s.my_change 0 "scaling_setspeed" = some e := Option.isSome_iff_exists.mp (by decide)
  have hrounded : ∀ s' ∈ s.socket_destruct {} (s.slist "scaling_setspeed").dropLast 4,
      ¬ s'.FollowsHead "scaling_setspeed" := by decide
  exact hrounded s' hs' (hfollows "scaling_setspeed" e hmine)

end pwrapi.daemon.Daemon
