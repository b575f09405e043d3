import PowerApi.Daemon.Answers

open SortedList

namespace pwrapi.daemon.Daemon

/-- The processing of a request answers its client with a failure status. -/
def AnswersFailure (skinfo : Nat) (s s' : Daemon) : Prop :=
  ∃ written, s'.sent = s.sent ++ [written] ∧ written.record = skinfo ∧ written.resp.retval = PWR_RET_FAILURE

/-- The lists of changes, the default values and the changes of every socket are the same,
and so is what a later rollback finds to restore. -/
structure SameTables (s s' : Daemon) : Prop where
  all_changes : s'.all_changes = s.all_changes
  def_values : s'.def_values = s.def_values
  my_change : ∀ skinfo path, s'.my_change skinfo path = s.my_change skinfo path

/-- What a request is listed among: the default of its path, with the value of a persistent
request in place of its own, and the changes by other sockets. `none` when the default
value has to be read and cannot be. -/
def contenders (io : Io) (now : UInt64) (skinfo : Nat) (newset : SetInfo) (s : Daemon) : Option (List SetInfo) :=
  let path := newset.setreq.path
  let persist := is_persistent (s.sockets.lookup skinfo)
  match s.def_values.lookup path with
  | none =>
    if persist then some [s.first_default newset newset.setreq.value now]
    else if io.read_fault path then none
    else (read_attr_file newset.setreq.attr newset.setreq.data_type (s.files path)).map fun value =>
      [s.first_default newset value now]
  | some d =>
    if persist then
      let changes := (s.slist path).filter fun e => e.skinfo.isSome
      some (without skinfo (insert_sorted changes (replaced_default d newset now) attr_value_comp))
    else some (without skinfo (s.slist path))

/-- The request takes effect among its contenders, and writing its value fails. -/
def FailsInForce (io : Io) (now : UInt64 × UInt64) (skinfo : Nat) (newset : SetInfo) (s : Daemon) : Prop :=
  let newset' := { newset with timestamp := now.2 }
  ∃ list, s.contenders io now.1 skinfo newset = some list ∧ (∀ top ∈ list.head?, attr_value_comp newset' top ≤ 0) ∧
    attr_value_comp newset' newset' = 0 ∧ write_fails io newset' (s.files newset.setreq.path) = true

section Contenders

variable {io : Io} {now : UInt64} {newset d : SetInfo} {s s₁ : Daemon} {skinfo : Nat} {sk : SocketInfo}

theorem without_default {list : List SetInfo} (h : ∀ e ∈ list, e.skinfo = none) : without skinfo list = list := by
  refine List.filter_eq_self.mpr fun e he => ?_
  simp [h e he]

/-- The contenders are what the list holds of others when the request is entered. -/
theorem contenders_of_defset (hinv : s.StoreInvariant) (hsk : s.sockets.lookup skinfo = some sk)
    (h : s.worker_defset io now (is_persistent (some sk)) newset = some s₁) :
    s.contenders io now skinfo newset = some (without skinfo (s₁.slist newset.setreq.path)) := by
  have hfirst : ∀ value, s.def_values.lookup newset.setreq.path = none →
      without skinfo ((({ s with next_addr := s.next_addr + 1, clock := now } : Daemon).set_insert
        (s.first_default newset value now) .def_values).slist newset.setreq.path) =
          [s.first_default newset value now] := by
    intro value hnone
    have hslist := first_slist hinv.defaulted (s.first_default newset value now) hnone (s.next_addr + 1) now
    rw [show newset.setreq.path = (s.first_default newset value now).setreq.path from rfl, hslist]
    refine without_default fun e he => ?_
    rw [List.mem_singleton.mp he]
    rfl
  unfold worker_defset at h
  cases hd : s.def_values.lookup newset.setreq.path with
  | none =>
    simp only [hd, set_create_item] at h
    simp only [contenders, hsk, hd]
    cases hpersist : is_persistent (some sk) with
    | true =>
      simp only [hpersist, if_true, Option.some.injEq] at h
      subst h
      rw [if_pos rfl]
      exact congrArg some (hfirst _ hd).symm
    | false =>
      simp only [hpersist, Bool.false_eq_true, if_false, Option.map_eq_some_iff, read_attr_value] at h
      obtain ⟨defset, hread, rfl⟩ := h
      rw [if_neg Bool.false_ne_true]
      split at hread
      · cases hread
      · next hfault =>
        obtain ⟨value, hvalue, rfl⟩ := Option.map_eq_some_iff.mp hread
        rw [if_neg hfault, hvalue]
        exact congrArg some (hfirst value hd).symm
  | some d =>
    simp only [hd] at h
    simp only [contenders, hsk, hd]
    cases hpersist : is_persistent (some sk) with
    | true =>
      simp only [hpersist, if_true, Option.some.injEq] at h
      subst h
      rw [if_pos rfl]
      have hslist := replaced_slist hinv.balanced hd now
      rw [← hslist]
      rfl
    | false =>
      simp only [hpersist, Bool.false_eq_true, if_false, Option.some.injEq] at h
      subst h
      rw [if_neg Bool.false_ne_true]

theorem contenders_none (hsk : s.sockets.lookup skinfo = some sk)
    (h : s.worker_defset io now (is_persistent (some sk)) newset = none) :
    s.contenders io now skinfo newset = none := by
  obtain ⟨hd, hpersist, hread⟩ := worker_defset_none h
  simp only [contenders, hsk, hd, hpersist]
  obtain hfault | hfile := hread
  · simp [hfault]
  · simp [hfile]

/-- The new record ties with the head of its list exactly when the head of the
contenders does not go before it, and it ties with itself. -/
theorem ties_with_head_iff {list : List SetInfo} {top : SetInfo}
    (h : (insert_sorted list newset attr_value_comp).head? = some top) :
    attr_value_comp newset top = 0 ↔
      (∀ y ∈ list.head?, attr_value_comp newset y ≤ 0) ∧ attr_value_comp newset newset = 0 := by
  cases list with
  | nil =>
    rw [insert_sorted_nil, List.head?_cons, Option.some.injEq] at h
    subst h
    simp
  | cons y ys =>
    rw [head_insert_sorted_cons, Option.some.injEq] at h
    subst h
    simp only [List.head?_cons, Option.mem_def, Option.some.injEq, forall_eq']
    by_cases hle : attr_value_comp newset y ≤ 0
    · simp [hle]
    · have hne : attr_value_comp newset y ≠ 0 := by omega
      simp [hle, hne]

end Contenders

section Failure

variable {io : Io} {now : UInt64 × UInt64} {newset : SetInfo} {s s₁ s' : Daemon} {skinfo : Nat} {sk : SocketInfo}

/-- The status of a response that was sent. -/
theorem answers_failure_iff {ret_code : Int} (h : s₁.send_ret_code_response skinfo ret_code = some s')
    (hsent : s₁.sent = s.sent) :
    s.AnswersFailure skinfo s' ↔ ret_code = PWR_RET_FAILURE := by
  obtain ⟨sk, hsk, rfl⟩ := send_response_eq h
  constructor
  · rintro ⟨written, hwritten, _, hretval⟩
    rw [hsent] at hwritten
    rw [← (List.cons.inj (List.append_cancel_left hwritten)).1] at hretval
    exact hretval
  · rintro rfl
    exact ⟨_, by rw [hsent], rfl, rfl⟩

/-- A listed request is found in the table of its socket, where it was not before. -/
theorem listed_changes_tables (hinv : s.StoreInvariant) (hunlisted : s.Unlisted newset)
    (hsk₁ : s₁.sockets.lookup skinfo = some sk)
    (hsame : s'.my_change skinfo newset.setreq.path =
      (s₁.listed skinfo now.2 newset).my_change skinfo newset.setreq.path) :
    ¬s.SameTables s' := by
  intro htables
  obtain ⟨sk₂, hsk₂, _⟩ := (s₁.worker_remove_oldset_keeps skinfo newset.setreq.path).lookup hsk₁
  have hlisted : (s₁.listed skinfo now.2 newset).my_change skinfo newset.setreq.path =
      some { newset with timestamp := now.2 } := by
    have hsockets : (s₁.listed skinfo now.2 newset).sockets = _ :=
      set_insert_my_changes (s := { s₁.worker_remove_oldset skinfo newset.setreq.path with clock := now.2 }) hsk₂
        { newset with timestamp := now.2 }
    rw [my_change, hsockets, Finmap.lookup_insert, Option.bind_some]
    exact Finmap.lookup_insert _
  rw [← hsame, htables.my_change] at hlisted
  have hmem := hinv.balanced.mem_slist.mpr (Or.inr ⟨skinfo, hlisted⟩)
  exact hunlisted _ hmem rfl

/-- A request that is answered with a failure leaves all tables as they were exactly
when it is not one that takes effect and whose write fails. -/
theorem failure_changes_nothing_iff (io : Io) (now : UInt64 × UInt64) (newset : SetInfo) (s s' : Daemon)
    (skinfo : Nat)
    (hinv : s.StoreInvariant) (hskinfo : newset.skinfo = some skinfo) (hunlisted : s.Unlisted newset)
    (h : s.worker_process_item io now newset = some s') :
    (s.AnswersFailure skinfo s' → s.SameTables s') ↔ ¬s.FailsInForce io now skinfo newset := by
  obtain ⟨skinfo', sk, hskinfo', hsk, hcase⟩ := worker_process_item_cases h
  obtain rfl : skinfo' = skinfo := Option.some.inj (hskinfo'.symm.trans hskinfo)
  obtain ⟨hdef, hsend⟩ | ⟨s₁, hdef, happly⟩ := hcase
  · have hnone := contenders_none hsk hdef
    have hsame := send_response_same_store hsend
    refine iff_of_true (fun _ => ⟨hsame.all_changes, hsame.def_values, hsame.my_change⟩) ?_
    rintro ⟨list, hlist, _⟩
    rw [hnone] at hlist
    cases hlist
  · have hstep := worker_defset_step hdef
    have hcontenders := contenders_of_defset hinv hsk hdef
    have hslist := listed_slist (hstep.balanced hinv.balanced) skinfo' now.2 newset newset.setreq.path
    rw [if_pos rfl] at hslist
    obtain ⟨top, htop, hsend⟩ := worker_apply_eq (s := s₁.listed skinfo' now.2 newset) happly
    dsimp only at hsend
    have htop' : (insert_sorted (without skinfo' (s₁.slist newset.setreq.path)) { newset with timestamp := now.2 }
      attr_value_comp).head? = some top := hslist ▸ htop
    have hfiles : (s₁.listed skinfo' now.2 newset).files = s.files :=
      (s₁.listed_files skinfo' now.2 newset).1.trans hstep.frame.2.1
    have hfails : s.FailsInForce io now skinfo' newset ↔
        apply_fails io { newset with timestamp := now.2 } top (s.files newset.setreq.path) = true := by
      rw [apply_fails, Bool.and_eq_true, decide_eq_true_iff, ties_with_head_iff htop']
      simp [FailsInForce, hcontenders, and_assoc]
    have hanswer : s.AnswersFailure skinfo' s' ↔ s.FailsInForce io now skinfo' newset := by
      have hsent := ((hstep.silent).trans (s₁.listed_silent skinfo' now.2 newset)).sent
      rw [answers_failure_iff hsend hsent, hfails, hfiles]
      split
      · next hfail => simp [hfail]
      · next hok => simp [hok, PWR_RET_SUCCESS, PWR_RET_FAILURE]
    have hchanged : ¬s.SameTables s' := by
      have hsk₁ : s₁.sockets.lookup skinfo' = some sk := by rwa [hstep.frame.1]
      have hsame : s'.my_change skinfo' newset.setreq.path =
          (s₁.listed skinfo' now.2 newset).my_change skinfo' newset.setreq.path :=
        (send_response_same_store hsend).my_change skinfo' _
      exact listed_changes_tables hinv hunlisted hsk₁ hsame
    rw [hanswer]
    exact ⟨fun himp hfails => hchanged (himp hfails), fun hok hfails => absurd hfails hok⟩

/-- A daemon with one client, and a frequency request of that client. -/
def one_client_open : Daemon := { (start fun _ => .uint64 10).socket_construct 4 ⟨1000⟩ with next_addr := 2 }

def frequency_item : SetInfo where
  addr := 1
  setreq := { object := 0, attr := .FREQ_REQ, data_type := .UINT64, metadata := 0, value := ⟨5⟩, path := "scaling_setspeed" }
  skinfo := some 0

/-- Control files that can be read and not written. -/
def read_only : Io where
  write_fault _ := some (.uint64 10)

theorem failure_changes_nothing_iff_read_only :
    ∃ s', one_client_open.worker_process_item read_only (1, 2) frequency_item = some s' ∧
      ((one_client_open.AnswersFailure 0 s' → one_client_open.SameTables s') ↔
        ¬one_client_open.FailsInForce read_only (1, 2) 0 frequency_item) := by
  have hinv : one_client_open.StoreInvariant :=
    next_addr_invariant (socket_construct_invariant (start_invariant _).store ⟨1000⟩ rfl)
  refine ⟨_, rfl, ?_⟩
  exact failure_changes_nothing_iff read_only (1, 2) frequency_item one_client_open _ 0 hinv rfl
    (by simp [Unlisted, slist, one_client_open, start, socket_construct]) rfl

/-- A frequency that could not be written is listed, and so is the default made for it. -/
theorem failure_keeps_request :
    ¬∀ (io : Io) (now : UInt64 × UInt64) (newset : SetInfo) (s s' : Daemon) (skinfo : Nat), s.StoreInvariant →
      newset.skinfo = some skinfo → s.Unlisted newset → s.worker_process_item io now newset = some s' →
        s.AnswersFailure skinfo s' → s.SameTables s' := by
  intro hall
  have hinv : one_client_open.StoreInvariant :=
    next_addr_invariant (socket_construct_invariant (start_invariant _).store ⟨1000⟩ rfl)
  have hsame := hall read_only (1, 2) frequency_item one_client_open _ 0 hinv rfl
    (by simp [Unlisted, slist, one_client_open, start, socket_construct]) rfl ⟨_, rfl, rfl, rfl⟩
  exact absurd (hsame.my_change 0 "scaling_setspeed") (by decide)

end Failure

end pwrapi.daemon.Daemon
