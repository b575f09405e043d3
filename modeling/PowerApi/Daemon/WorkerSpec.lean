import PowerApi.Daemon.Balance

open SortedList

namespace pwrapi.daemon.Daemon

/-- The default record made when a path is used for the first time. -/
def first_default (s : Daemon) (newset : SetInfo) (value : TypeUnion) (now : UInt64) : SetInfo :=
  { addr := s.next_addr, setreq := { newset.setreq with value }, skinfo := none, timestamp := now }

/-- The default record with the value of a persistent request in place of its own. -/
def replaced_default (d newset : SetInfo) (now : UInt64) : SetInfo :=
  { d with setreq := { d.setreq with value := newset.setreq.value }, timestamp := now }

/-- The three ways in which `worker_defset` succeeds. -/
inductive DefsetStep (io : Io) (now : UInt64) (persist : Bool) (newset : SetInfo) (s : Daemon) :
    Daemon → Prop where
  | first (value : TypeUnion) (hnone : s.def_values.lookup newset.setreq.path = none)
      (hpersist : persist = true → value = newset.setreq.value)
      (hread : persist = false → read_attr_file newset.setreq.attr newset.setreq.data_type
        (s.files newset.setreq.path) = some value) :
      DefsetStep io now persist newset s
        (({ s with next_addr := s.next_addr + 1, clock := now } : Daemon).set_insert
          (s.first_default newset value now) .def_values)
  | replaced (d : SetInfo) (hd : s.def_values.lookup newset.setreq.path = some d) (hpersist : persist = true) :
      DefsetStep io now persist newset s
        (({ s.set_remove d .def_values with clock := now } : Daemon).set_insert
          (replaced_default d newset now) .def_values)
  | kept (d : SetInfo) (hd : s.def_values.lookup newset.setreq.path = some d) (hpersist : persist = false) :
      DefsetStep io now persist newset s s

theorem worker_defset_step {io : Io} {now : UInt64} {persist : Bool} {newset : SetInfo} {s s' : Daemon}
    (h : s.worker_defset io now persist newset = some s') : DefsetStep io now persist newset s s' := by
  unfold worker_defset at h
  cases hd : s.def_values.lookup newset.setreq.path with
  | none =>
    simp only [hd, set_create_item] at h
    cases persist with
    | true =>
      simp only [if_true, Option.some.injEq] at h
      subst h
      exact .first newset.setreq.value hd (fun _ => rfl) (by simp)
    | false =>
      simp only [Bool.false_eq_true, if_false, Option.map_eq_some_iff, read_attr_value] at h
      obtain ⟨defset, hread, rfl⟩ := h
      split at hread
      · cases hread
      · obtain ⟨value, hvalue, rfl⟩ := Option.map_eq_some_iff.mp hread
        exact .first value hd (by simp) fun _ => hvalue
  | some d =>
    simp only [hd] at h
    cases persist with
    | true =>
      simp only [if_true, Option.some.injEq] at h
      subst h
      exact .replaced d hd rfl
    | false =>
      simp only [Bool.false_eq_true, if_false, Option.some.injEq] at h
      subst h
      exact .kept d hd rfl

/-- A default is always at hand unless it has to be read from the control file and cannot be. -/
theorem worker_defset_none {io : Io} {now : UInt64} {persist : Bool} {newset : SetInfo} {s : Daemon}
    (h : s.worker_defset io now persist newset = none) :
    s.def_values.lookup newset.setreq.path = none ∧ persist = false ∧
      (io.read_fault newset.setreq.path = true ∨
        read_attr_file newset.setreq.attr newset.setreq.data_type (s.files newset.setreq.path) = none) := by
  unfold worker_defset at h
  cases hd : s.def_values.lookup newset.setreq.path with
  | none =>
    simp only [hd, set_create_item] at h
    cases persist with
    | true => simp at h
    | false =>
      simp only [Bool.false_eq_true, if_false, Option.map_eq_none_iff, read_attr_value] at h
      refine ⟨rfl, rfl, ?_⟩
      split at h
      · next hfault => exact Or.inl hfault
      · exact Or.inr (Option.map_eq_none_iff.mp h)
  | some d =>
    simp only [hd] at h
    split at h <;> cases h

/-- Sending a response numbers it with the counter of the record and counts it. -/
theorem send_response_eq {skinfo : Nat} {resp : Response} {s s' : Daemon}
    (h : s.send_response skinfo resp = some s') :
    ∃ sk, s.sockets.lookup skinfo = some sk ∧
      s' = { s with
        sockets := s.sockets.insert skinfo { sk with seqnum := sk.seqnum + 1 }
        sent := s.sent ++ [{ record := skinfo, fd := sk.sockid, resp := { resp with sequence := sk.seqnum } }] } := by
  unfold send_response at h
  cases hsk : s.sockets.lookup skinfo with
  | none => simp [hsk] at h
  | some sk =>
    simp only [hsk, Option.bind_eq_bind, Option.bind_some, Option.some.injEq] at h
    exact ⟨sk, rfl, h.symm⟩

theorem send_response_success {skinfo : Nat} {sk : SocketInfo} (resp : Response) {s : Daemon}
    (h : s.sockets.lookup skinfo = some sk) : ∃ s', s.send_response skinfo resp = some s' := by
  simp [send_response, h]

/-- A request is processed in two ways: its default cannot be had and nothing
is changed, or the new record is listed and, where it ties with the head, written. -/
theorem worker_process_item_cases {io : Io} {now : UInt64 × UInt64} {newset : SetInfo} {s s' : Daemon}
    (h : s.worker_process_item io now newset = some s') :
    ∃ skinfo sk, newset.skinfo = some skinfo ∧ s.sockets.lookup skinfo = some sk ∧
      ((s.worker_defset io now.1 (is_persistent (some sk)) newset = none ∧
        ({ s with io_failed := true } : Daemon).send_ret_code_response skinfo PWR_RET_FAILURE = some s') ∨
      ∃ s₁, s.worker_defset io now.1 (is_persistent (some sk)) newset = some s₁ ∧
        (({ s₁.worker_remove_oldset skinfo newset.setreq.path with clock := now.2 } : Daemon).set_insert
          { newset with timestamp := now.2 } (.my_changes skinfo)).worker_apply io skinfo
            { newset with timestamp := now.2 } = some s') := by
  unfold worker_process_item at h
  cases hskinfo : newset.skinfo with
  | none => simp [hskinfo] at h
  | some skinfo =>
    cases hsk : s.sockets.lookup skinfo with
    | none => simp [hskinfo, hsk] at h
    | some sk =>
      simp only [hskinfo, hsk, Option.bind_eq_bind, Option.bind_some] at h
      refine ⟨skinfo, sk, rfl, hsk, ?_⟩
      cases hdef : s.worker_defset io now.1 (is_persistent (some sk)) newset with
      | none =>
        simp only [hdef] at h
        exact Or.inl ⟨rfl, h⟩
      | some s₁ =>
        simp only [hdef] at h
        exact Or.inr ⟨s₁, rfl, h⟩

end pwrapi.daemon.Daemon
