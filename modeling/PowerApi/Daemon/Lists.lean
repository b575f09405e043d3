import PowerApi.Daemon.Serial

open SortedList

namespace pwrapi.daemon.Daemon

/-- The entries of a list that do not belong to a socket. -/
def without (skinfo : Nat) (list : List SetInfo) : List SetInfo :=
  list.filter fun e => decide (e.skinfo ≠ some skinfo)

theorem mem_without {skinfo : Nat} {list : List SetInfo} {e : SetInfo} :
    e ∈ without skinfo list ↔ e ∈ list ∧ e.skinfo ≠ some skinfo := by
  rw [without, List.mem_filter, decide_eq_true_iff]

section Lists

variable {io : Io} {now : UInt64} {persist : Bool} {newset d : SetInfo} {s s' : Daemon} {skinfo : Nat}
  {sk : SocketInfo} {path : String}

theorem Defaulted.slist_nil (h : s.Defaulted) (hnone : s.def_values.lookup path = none) : s.slist path = [] := by
  refine List.eq_nil_iff_forall_not_mem.mpr fun e he => ?_
  obtain ⟨d, hd⟩ := h.of_mem he
  rw [hnone] at hd
  cases hd

/-- Providing a default touches the list of the request's path only. -/
theorem DefsetStep.slist_of_ne (h : DefsetStep io now persist newset s s') (hb : s.Balanced)
    (hne : path ≠ newset.setreq.path) : s'.slist path = s.slist path := by
  cases h with
  | first value =>
    rw [set_insert_slist, if_neg (by exact hne)]
    rfl
  | replaced d hd =>
    obtain ⟨hpath, _⟩ := hb.def_entry _ _ hd
    have hne' : path ≠ d.setreq.path := hpath ▸ hne
    rw [set_insert_slist, if_neg (by exact hne')]
    exact (set_remove_slist d .def_values s path).trans (if_neg hne')
  | kept => rfl

/-- The list of a path that had no default holds the new default only. -/
theorem first_slist (hd : s.Defaulted) (d : SetInfo) (hnone : s.def_values.lookup d.setreq.path = none)
    (next_addr : Nat)
    (clock : UInt64) :
    (({ s with next_addr, clock } : Daemon).set_insert d .def_values).slist d.setreq.path = [d] := by
  have hnil : ({ s with next_addr, clock } : Daemon).slist d.setreq.path = [] := hd.slist_nil hnone
  rw [set_insert_slist, if_pos rfl, hnil, insert_sorted_nil]

/-- A replaced default is sorted anew into the list of its path. -/
theorem replaced_slist (hb : s.Balanced) (hd : s.def_values.lookup newset.setreq.path = some d) (now : UInt64) :
    (({ s.set_remove d .def_values with clock := now } : Daemon).set_insert
      (replaced_default d newset now) .def_values).slist newset.setreq.path =
        insert_sorted ((s.slist newset.setreq.path).filter fun e => e.skinfo.isSome)
          (replaced_default d newset now) attr_value_comp := by
  obtain ⟨hpath, _⟩ := hb.def_entry _ _ hd
  have hremoved : ({ s.set_remove d .def_values with clock := now } : Daemon).slist newset.setreq.path =
      (s.slist newset.setreq.path).filter fun e => e.skinfo.isSome := by
    rw [← hb.remove_default hd]
    exact (set_remove_slist d .def_values s _).trans (if_pos hpath.symm)
  rw [set_insert_slist, if_pos (by exact hpath.symm), hremoved]

theorem worker_remove_oldset_slist (hb : s.Balanced) (skinfo : Nat) (path' path : String) :
    (s.worker_remove_oldset skinfo path').slist path =
      if path = path' then without skinfo (s.slist path) else s.slist path := by
  obtain ⟨hnone, heq⟩ | ⟨oldset, hold, heq⟩ := s.worker_remove_oldset_eq skinfo path'
  · rw [heq]
    split
    · next hpath => rw [without, hb.filter_of_no_change (hpath ▸ hnone)]
    · rfl
  · obtain ⟨rfl, _⟩ := hb.change_entry _ _ _ hold
    rw [heq, set_remove_slist]
    split
    · next hpath => rw [hpath, hb.remove_change hold, without]
    · rfl

/-- The new record is sorted into what the list holds of others. -/
theorem listed_slist (hb : s.Balanced) (skinfo : Nat) (now : UInt64) (newset : SetInfo) (path : String) :
    (s.listed skinfo now newset).slist path =
      if path = newset.setreq.path then
        insert_sorted (without skinfo (s.slist path)) { newset with timestamp := now } attr_value_comp
      else s.slist path := by
  have hremove := worker_remove_oldset_slist hb skinfo newset.setreq.path path
  rw [listed, set_insert_slist]
  split
  · next hpath =>
    rw [if_pos hpath] at hremove
    exact congrArg (insert_sorted · _ _) hremove
  · next hpath =>
    rw [if_neg hpath] at hremove
    exact hremove

end Lists

end pwrapi.daemon.Daemon
