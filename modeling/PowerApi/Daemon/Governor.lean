import PowerApi.Daemon.Lists
import PowerApi.Daemon.HeadRuns

open SortedList Execution

namespace pwrapi.daemon

/-- The record asks for the userspace governor. -/
def IsUserspace (e : SetInfo) : Prop := e.setreq.value.ivalue = PwrAttrGov.LINUX_USERSPACE.ivalue

instance (e : SetInfo) : Decidable (IsUserspace e) := inferInstanceAs (Decidable (_ = _))

/-- The order that governor records are listed in: the userspace governor first,
the others by age, the newest first. -/
def GovPrecedes (a b : SetInfo) : Prop := IsUserspace a ∨ (¬IsUserspace b ∧ b.timestamp < a.timestamp)

/-- A record with a governor that can be written and read back. -/
structure GovRecord (e : SetInfo) : Prop where
  attr : e.setreq.attr = .GOV
  maps_back : GovMapsBack e.setreq.value.ivalue

/-- A list of governor records made up to a point in time, in their order. -/
structure GovList (clock : UInt64) (list : List SetInfo) : Prop where
  records : ∀ e ∈ list, GovRecord e
  made : ∀ e ∈ list, e.timestamp ≤ clock
  order : list.Pairwise GovPrecedes

section Compare

variable {a b : SetInfo}

theorem GovPrecedes.trans {c : SetInfo} (hab : GovPrecedes a b) (hbc : GovPrecedes b c) : GovPrecedes a c := by
  obtain ha | ⟨hb, hlt⟩ := hab
  · exact Or.inl ha
  · obtain hb' | ⟨hc, hlt'⟩ := hbc
    · exact absurd hb' hb
    · exact Or.inr ⟨hc, UInt64.lt_trans hlt' hlt⟩

/-- The comparison of two governor records, in the terms of their order. -/
theorem attr_value_comp_gov (hattr : a.setreq.attr = .GOV) :
    attr_value_comp a b =
      if a.setreq.value.ivalue = b.setreq.value.ivalue then 0
      else if IsUserspace a then -1
      else if IsUserspace b then 1
      else if b.timestamp < a.timestamp then -1 else 1 := by
  rw [attr_value_comp, hattr]
  rfl

/-- A newer record stops where it precedes. -/
theorem precedes_of_gov_compare (hattr : a.setreq.attr = .GOV) (hnew : b.timestamp < a.timestamp)
    (hle : attr_value_comp a b ≤ 0) : GovPrecedes a b := by
  rw [attr_value_comp_gov hattr] at hle
  by_cases ha : IsUserspace a
  · exact Or.inl ha
  · refine Or.inr ⟨fun hb => ?_, hnew⟩
    have hne : a.setreq.value.ivalue ≠ b.setreq.value.ivalue := fun heq => ha (heq.trans hb)
    rw [if_neg hne, if_neg ha, if_pos hb] at hle
    exact absurd hle (by decide)

/-- A newer record only passes userspace governors. -/
theorem userspace_of_gov_compare (hattr : a.setreq.attr = .GOV) (hnew : b.timestamp < a.timestamp)
    (hpos : 0 < attr_value_comp a b) : IsUserspace b := by
  by_contra hb
  rw [attr_value_comp_gov hattr, if_neg hb, if_pos hnew] at hpos
  split at hpos
  · exact absurd hpos (by decide)
  · split at hpos <;> exact absurd hpos (by decide)

theorem gov_compare_zero (hattr : a.setreq.attr = .GOV) :
    attr_value_comp a b = 0 ↔ a.setreq.value.ivalue = b.setreq.value.ivalue := by
  rw [attr_value_comp_gov hattr]
  split
  · next heq => simp [heq]
  · next hne =>
    simp only [hne, iff_false]
    split
    · decide
    · split
      · decide
      · split <;> decide

/-- A record that precedes another one with another governor compares as higher priority. -/
theorem gov_compare_neg (hattr : a.setreq.attr = .GOV) (hprecedes : GovPrecedes a b)
    (hne : a.setreq.value.ivalue ≠ b.setreq.value.ivalue) : attr_value_comp a b < 0 := by
  rw [attr_value_comp_gov hattr, if_neg hne]
  by_cases ha : IsUserspace a
  · rw [if_pos ha]
    decide
  · obtain ha' | ⟨hb, hlt⟩ := hprecedes
    · exact absurd ha' ha
    · rw [if_neg ha, if_neg hb, if_pos hlt]
      decide

end Compare

section Insert

variable {clock : UInt64} {list : List SetInfo} {e : SetInfo}

theorem GovList.mono {clock' : UInt64} (h : GovList clock list) (hle : clock ≤ clock') : GovList clock' list :=
  ⟨h.records, fun e he => UInt64.le_trans (h.made e he) hle, h.order⟩

theorem GovList.sublist {list' : List SetInfo} (h : GovList clock list) (hsub : list'.Sublist list) :
    GovList clock list' :=
  ⟨fun e he => h.records e (hsub.subset he), fun e he => h.made e (hsub.subset he), h.order.sublist hsub⟩

/-- A new record is listed behind the userspace governors, or first of all when it is one. -/
theorem GovList.insert_sorted (h : GovList clock list) (he : GovRecord e) (hnow : clock < e.timestamp) :
    GovList e.timestamp (insert_sorted list e attr_value_comp) := by
  have hnew : ∀ y ∈ list, y.timestamp < e.timestamp := fun y hy => UInt64.lt_of_le_of_lt (h.made y hy) hnow
  refine ⟨?_, ?_, ?_⟩
  · intro y hy
    obtain rfl | hy := mem_insert_sorted.mp hy
    · exact he
    · exact h.records y hy
  · intro y hy
    obtain rfl | hy := mem_insert_sorted.mp hy
    · exact UInt64.le_refl _
    · exact UInt64.le_of_lt (hnew y hy)
  · exact pairwise_insert_sorted (fun y hy hle => precedes_of_gov_compare he.attr (hnew y hy) hle)
      (fun y hy hpos => Or.inl (userspace_of_gov_compare he.attr (hnew y hy) hpos))
      (fun _ _ _ _ hxy hyz => hxy.trans hyz) h.order

/-- The head of the list precedes the other entries. -/
theorem GovList.head_precedes (h : GovList clock list) {top : SetInfo} (htop : list.head? = some top)
    (he : e ∈ list) : e = top ∨ GovPrecedes top e := by
  cases list with
  | nil => cases htop
  | cons y ys =>
    cases htop
    obtain rfl | hmem := List.mem_cons.mp he
    · exact Or.inl rfl
    · exact Or.inr ((List.pairwise_cons.mp h.order).1 e hmem)

end Insert

namespace Daemon

/-- The path's list holds governor records in their order, and the control file has the governor of the head. -/
structure GovFollowed (path : String) (s : Daemon) : Prop where
  list : GovList s.clock (s.slist path)
  file : ∀ top ∈ (s.slist path).head?, read_governor (s.files path) = some top.setreq.value.ivalue

section Governor

variable {io : Io} {now : UInt64 × UInt64} {persist : Bool} {newset : SetInfo} {s s' s₁ : Daemon} {skinfo : Nat}
  {path : String}

/-- What is read as a governor is mapped to a name and back. -/
theorem gov_maps_back_of_read {file : ControlFile} {ivalue : UInt64} (h : read_governor file = some ivalue) :
    GovMapsBack ivalue := by
  obtain ⟨buf, _, rfl⟩ := Option.map_eq_some_iff.mp h
  exact (pwr_string_to_gov buf).maps_back

/-- A governor that is mapped back is in the file once it has been written. -/
theorem read_governor_written {e : SetInfo} {file : ControlFile} (he : GovRecord e)
    (hwrite : write_fails io e file = false) :
    read_governor (written_file io e file) = some e.setreq.value.ivalue := by
  have hwritten := written_file_of_not_fails hwrite
  rw [he.attr] at hwritten
  rw [read_governor_of_write hwritten, he.maps_back]

/-- Taking the entry of a closing socket out of a governor list leaves the file at the governor of the head. -/
theorem Destructs.gov_followed {client_socket : Int} (hdestructs : s.Destructs io client_socket skinfo s')
    (hinv : s.StoreInvariant) (h : s.GovFollowed path) (hio : s'.io_failed = false) : s'.GovFollowed path := by
  have hsub := hdestructs.slist_sublist path
  refine ⟨hdestructs.clock ▸ h.list.sublist hsub, fun top htop => ?_⟩
  cases hmine : s.my_change skinfo path with
  | none =>
    obtain ⟨hslist, hfile⟩ := hdestructs.untouched path hmine
    rw [hfile]
    exact h.file top (hslist ▸ htop)
  | some e =>
    obtain ⟨hslist, hfile⟩ := hdestructs.touched path e hmine
    have hwrite := (hdestructs.no_failure.mp hio).2 path e hmine
    have hmem : e ∈ s.slist path := hinv.balanced.mem_slist.mpr (Or.inr ⟨skinfo, hmine⟩)
    have htop_mem : top ∈ s.slist path := hsub.subset (List.mem_of_mem_head? htop)
    rw [hslist] at htop
    obtain ⟨rest, hcons⟩ : ∃ rest, remove SetInfo.addr (s.slist path) e = top :: rest :=
      ⟨_, List.eq_cons_of_mem_head? htop⟩
    rw [hfile, hcons, undone_file]
    rw [hcons, undo_fails] at hwrite
    by_cases hfirst : attr_value_comp e top < 0
    · rw [if_pos hfirst]
      simp only [hfirst, decide_true, Bool.true_and] at hwrite
      exact read_governor_written (h.list.records top htop_mem) hwrite
    · rw [if_neg hfirst]
      obtain ⟨head, tail, hlist⟩ := List.exists_cons_of_ne_nil (List.ne_nil_of_mem hmem)
      have hhead : head ∈ (s.slist path).head? := by rw [hlist]; rfl
      rw [h.file head hhead]
      by_cases hremoved : head = e
      · subst hremoved
        have htop_tail : top ∈ tail := by
          have hin : top ∈ remove SetInfo.addr (s.slist path) head := by
            rw [hcons]
            exact List.mem_cons_self
          simpa [hlist, remove] using hin
        have hprecedes : GovPrecedes head top := (List.pairwise_cons.mp (hlist ▸ h.list.order)).1 top htop_tail
        by_contra hne
        exact hfirst (gov_compare_neg (h.list.records head hmem).attr hprecedes fun heq => hne (congrArg some heq))
      · have haddr : head.addr ≠ e.addr := fun heq =>
          hremoved (List.inj_on_of_nodup_map (hinv.balanced.nodup path) (by simp [hlist]) hmem heq)
        rw [hlist, remove, List.eraseP_cons_of_neg (by simpa using haddr)] at hcons
        rw [(List.cons.inj hcons).1]

/-- After a default has been provided, the list holds what it held before, the
governor of a persistent request, or the governor that is in the file. -/
theorem DefsetStep.gov_list (hdef : DefsetStep io now.1 persist newset s s₁) (hinv : s.StoreInvariant)
    (h : s.GovFollowed newset.setreq.path) (hnew : GovRecord newset) (hnow : s.clock < now.2)
    (hmade : persist = true ∨ s.def_values.lookup newset.setreq.path = none → s.clock < now.1 ∧ now.1 < now.2) :
    (∃ clock, clock < now.2 ∧ GovList clock (s₁.slist newset.setreq.path)) ∧
      ∀ e ∈ s₁.slist newset.setreq.path, e ∈ s.slist newset.setreq.path ∨
        e.setreq.value.ivalue = newset.setreq.value.ivalue ∨
          read_governor (s.files newset.setreq.path) = some e.setreq.value.ivalue := by
  cases hdef with
  | first value hnone hpersist hread =>
    have hone := first_slist hinv.defaulted (s.first_default newset value now.1) hnone (s.next_addr + 1) now.1
    have hvalue : value.ivalue = newset.setreq.value.ivalue ∨
        read_governor (s.files newset.setreq.path) = some value.ivalue := by
      cases persist with
      | true => exact Or.inl (by rw [hpersist rfl])
      | false =>
        have hfile := hread rfl
        rw [hnew.attr] at hfile
        obtain ⟨ivalue, hivalue, rfl⟩ := Option.map_eq_some_iff.mp hfile
        exact Or.inr hivalue
    have hrecord : GovRecord (s.first_default newset value now.1) := by
      refine ⟨hnew.attr, ?_⟩
      obtain heq | hfile := hvalue
      · exact heq ▸ hnew.maps_back
      · exact gov_maps_back_of_read hfile
    refine ⟨⟨now.1, (hmade (Or.inr hnone)).2, ?_⟩, ?_⟩
    · rw [show newset.setreq.path = (s.first_default newset value now.1).setreq.path from rfl, hone]
      refine ⟨fun e he => ?_, fun e he => ?_, List.pairwise_singleton _ _⟩
      · exact List.mem_singleton.mp he ▸ hrecord
      · exact List.mem_singleton.mp he ▸ UInt64.le_refl _
    · intro e he
      rw [show newset.setreq.path = (s.first_default newset value now.1).setreq.path from rfl, hone,
        List.mem_singleton] at he
      subst he
      exact Or.inr hvalue
  | replaced d hd hpersist =>
    obtain ⟨hfrom, hto⟩ := hmade (Or.inl hpersist)
    have hd_record := h.list.records d (hinv.balanced.mem_slist.mpr (Or.inl hd))
    have hrecord : GovRecord (replaced_default d newset now.1) := ⟨hd_record.attr, hnew.maps_back⟩
    rw [replaced_slist hinv.balanced hd]
    refine ⟨⟨now.1, hto, (h.list.sublist List.filter_sublist).insert_sorted hrecord hfrom⟩, fun e he => ?_⟩
    obtain rfl | he := mem_insert_sorted.mp he
    · exact Or.inr (Or.inl rfl)
    · exact Or.inl (List.mem_filter.mp he).1
  | kept d hd hpersist => exact ⟨⟨s.clock, hnow, h.list⟩, fun e he => Or.inl he⟩

theorem ProcessStep.clock (hstep : ProcessStep io now newset s s') (hio : s'.io_failed = false) :
    s'.clock = now.2 := by
  cases hstep with
  | refused hsame =>
    rw [hsame.io_failed] at hio
    cases hio
  | applied skinfo sk s₁ top hskinfo hsk hdef htop hsame =>
    exact hsame.clock.trans (s₁.listed_clock skinfo now.2 newset)

/-- Processing a governor request leaves the file at the governor of the head: the
new record is the head, or the head is a userspace record as the old head was. -/
theorem ProcessStep.gov_followed (hstep : ProcessStep io now newset s s') (hinv : s.StoreInvariant)
    (h : s.GovFollowed newset.setreq.path) (hnew : GovRecord newset) (hnow : s.clock < now.2)
    (hmade : ∀ skinfo sk, newset.skinfo = some skinfo → s.sockets.lookup skinfo = some sk →
      is_persistent (some sk) = true ∨ s.def_values.lookup newset.setreq.path = none →
        s.clock < now.1 ∧ now.1 < now.2)
    (hio : s'.io_failed = false) : s'.GovFollowed newset.setreq.path := by
  cases hstep with
  | refused hsame =>
    rw [hsame.io_failed] at hio
    cases hio
  | applied skinfo sk s₁ top hskinfo hsk hdef htop hsame =>
    obtain ⟨⟨clock, hclock, hlist⟩, hentries⟩ :=
      hdef.gov_list hinv h hnew hnow (hmade skinfo sk hskinfo hsk)
    have hslist : s'.slist newset.setreq.path = insert_sorted (without skinfo (s₁.slist newset.setreq.path))
        { newset with timestamp := now.2 } attr_value_comp := by
      rw [hsame.slist_eq]
      exact (listed_slist (hdef.balanced hinv.balanced) skinfo now.2 newset _).trans (if_pos rfl)
    have hrecord : GovRecord { newset with timestamp := now.2 } := ⟨hnew.attr, hnew.maps_back⟩
    have hothers : GovList clock (without skinfo (s₁.slist newset.setreq.path)) := hlist.sublist List.filter_sublist
    have hall := hothers.insert_sorted hrecord hclock
    have hclock' : s'.clock = now.2 := hsame.clock.trans (s₁.listed_clock skinfo now.2 newset)
    refine ⟨by rw [hclock', hslist]; exact hall, fun top' htop' => ?_⟩
    obtain rfl : top' = top := Option.some.inj (Eq.trans (Eq.symm htop') ((congrArg List.head? (hsame.slist_eq _)).trans htop))
    rw [hslist] at htop'
    have hfile : s'.files newset.setreq.path =
        applied_file io { newset with timestamp := now.2 } top' (s.files newset.setreq.path) := by
      rw [hsame.files]
      exact Function.update_self _ _ _
    have hzero : attr_value_comp { newset with timestamp := now.2 } top' = 0 ↔
        newset.setreq.value.ivalue = top'.setreq.value.ivalue := gov_compare_zero hrecord.attr
    rw [hfile, applied_file]
    by_cases htie : newset.setreq.value.ivalue = top'.setreq.value.ivalue
    · rw [hsame.io_failed, Bool.or_eq_false_iff, apply_fails, decide_eq_true (hzero.mpr htie), Bool.true_and] at hio
      rw [if_pos (hzero.mpr htie), read_governor_written hrecord hio.2]
      exact congrArg some htie
    · rw [if_neg (hzero.not.mpr htie)]
      have htop_mem := mem_insert_sorted.mp (List.mem_of_mem_head? htop')
      obtain rfl | htop_old := htop_mem
      · exact absurd rfl htie
      have htop_userspace : IsUserspace top' := by
        obtain heq | hprecedes := hall.head_precedes htop' (mem_insert_sorted.mpr (Or.inl rfl))
        · exact absurd (congrArg (fun e => e.setreq.value.ivalue) heq) htie
        · obtain huserspace | ⟨_, hlater⟩ := hprecedes
          · exact huserspace
          · have hearlier := UInt64.lt_of_le_of_lt (hothers.made top' htop_old) hclock
            exact absurd (UInt64.lt_trans hlater hearlier) (UInt64.lt_irrefl _)
      obtain hold | hnew_value | hread := hentries top' (mem_without.mp htop_old).1
      · obtain ⟨head, tail, hcons⟩ := List.exists_cons_of_ne_nil (List.ne_nil_of_mem hold)
        have hhead : head ∈ (s.slist newset.setreq.path).head? := by rw [hcons]; rfl
        rw [h.file head hhead]
        obtain rfl | huserspace | ⟨hnot, _⟩ := h.list.head_precedes hhead hold
        · rfl
        · exact congrArg some (huserspace.trans htop_userspace.symm)
        · exact absurd htop_userspace hnot
      · exact absurd hnew_value.symm htie
      · exact hread

end Governor

/-- The requests on the path ask for governors that are mapped to a name and back. -/
def UsesGovernor (path : String) : Operation → Prop
  | .request _ (.PwrSET set) _ _ => set.path = path → set.attr = .GOV ∧ GovMapsBack set.value.ivalue
  | _ => True

/-- The clock has moved on whenever a set request makes the worker read it. -/
def ClockAdvances (s : Daemon) : Operation → Prop
  | .request client_socket (.PwrSET set) _ now =>
    ∀ skinfo ∈ s.open_sockets.lookup client_socket, ∀ sk ∈ s.sockets.lookup skinfo, sk.role ≠ .NOT_SPECIFIED →
      s.clock < now.2 ∧
        (is_persistent (some sk) = true ∨ s.def_values.lookup set.path = none → s.clock < now.1 ∧ now.1 < now.2)
  | _ => True

instance (path : String) (op : Operation) : Decidable (UsesGovernor path op) :=
  match op with
  | .request _ (.PwrSET set) _ _ => inferInstanceAs (Decidable (set.path = path → _))
  | .request _ (.PwrAUTH _ _) _ _ => .isTrue trivial
  | .request _ (.PwrLOGLVL _) _ _ => .isTrue trivial
  | .request _ .PwrDUMP _ _ => .isTrue trivial
  | .request _ (.OTHER _) _ _ => .isTrue trivial
  | .connect _ _ => .isTrue trivial
  | .disconnect _ _ _ => .isTrue trivial

instance (s : Daemon) (op : Operation) : Decidable (s.ClockAdvances op) :=
  match op with
  | .request client_socket (.PwrSET _) _ _ =>
    inferInstanceAs (Decidable (∀ skinfo ∈ s.open_sockets.lookup client_socket, ∀ sk ∈ s.sockets.lookup skinfo,
      _ → _))
  | .request _ (.PwrAUTH _ _) _ _ => .isTrue trivial
  | .request _ (.PwrLOGLVL _) _ _ => .isTrue trivial
  | .request _ .PwrDUMP _ _ => .isTrue trivial
  | .request _ (.OTHER _) _ _ => .isTrue trivial
  | .connect _ _ => .isTrue trivial
  | .disconnect _ _ _ => .isTrue trivial

/-- An operation on governor requests, with every access to a control file succeeding. -/
def GovStep (pmlog : Pmlog) (path : String) (s : Daemon) (op : Operation) (s' : Daemon) : Prop :=
  UsesGovernor path op ∧ s.ClockAdvances op ∧ s.Permitted op ∧ s.perform pmlog op = some s' ∧ s'.io_failed = false

/-- The head of the list is a userspace record if one is in force and the newest
record otherwise, and the control file has its governor. -/
def GovernorInForce (s : Daemon) (path : String) : Prop :=
  ∃ top ∈ (s.slist path).head?, top ∈ s.in_force path ∧
    ((∃ e ∈ s.in_force path, IsUserspace e) → IsUserspace top) ∧
    ((¬∃ e ∈ s.in_force path, IsUserspace e) → ∀ e ∈ s.in_force path, e ≠ top → e.timestamp < top.timestamp) ∧
    read_governor (s.files path) = some top.setreq.value.ivalue

section Runs

variable {pmlog : Pmlog} {path : String} {op : Operation} {s s' : Daemon}

theorem StoreStep.gov_followed (hstep : s.StoreStep op s') (hinv : s.StoreInvariant) (h : s.GovFollowed path)
    (hgov : UsesGovernor path op) (hclock : s.ClockAdvances op) (hio : s'.io_failed = false) :
    s'.GovFollowed path := by
  cases hstep with
  | quiet _ _ hsame =>
    refine ⟨?_, fun top htop => ?_⟩
    · rw [hsame.slist_eq, hsame.clock]
      exact h.list
    · rw [hsame.files]
      exact h.file top (hsame.slist_eq path ▸ htop)
  | set client_socket set io now skinfo sk _ haccepts hprocess =>
    obtain ⟨hopen, hsk, hrole⟩ := haccepts
    obtain ⟨hnow, hmade⟩ := hclock skinfo hopen sk hsk hrole
    have hprocessed := worker_process_item_step hprocess
    have hinv₀ := next_addr_invariant hinv
    have h₀ : ({ s with next_addr := s.next_addr + 1 } : Daemon).GovFollowed path := ⟨h.list, h.file⟩
    by_cases hpath : set.path = path
    · subst hpath
      obtain ⟨hattr, hback⟩ := hgov rfl
      refine hprocessed.gov_followed hinv₀ h₀ ⟨hattr, hback⟩ hnow ?_ hio
      intro skinfo' sk' hskinfo hsk'
      cases hskinfo
      obtain rfl : sk' = sk := Option.some.inj (Eq.trans (Eq.symm hsk') hsk)
      exact hmade
    · obtain ⟨hslist, hfile⟩ := hprocessed.frame hinv₀ (Ne.symm hpath)
      refine ⟨?_, fun top htop => ?_⟩
      · rw [hslist, hprocessed.clock hio]
        exact h.list.mono (UInt64.le_of_lt hnow)
      · rw [hfile]
        exact h.file top (hslist ▸ htop)
  | closed client_socket io order skinfo _ hopen hdestructs => exact hdestructs.gov_followed hinv h hio

theorem GovStep.invariant (h : GovStep pmlog path s op s') (hinv : s.SerialInvariant ∧ s.GovFollowed path) :
    s'.SerialInvariant ∧ s'.GovFollowed path := by
  obtain ⟨hgov, hclock, hpermitted, hperform, hio⟩ := h
  obtain ⟨hstep, hserial⟩ := perform_step hinv.1 hpermitted hperform
  exact ⟨hserial, hstep.gov_followed hinv.1.store hinv.2 hgov hclock hio⟩

/-- In every state reached, the governor in force on a path is at the head of its list and in its file. -/
theorem governor_in_force (pmlog : Pmlog) (path : String) (files : String → ControlFile)
    (run : List (Operation × Daemon)) (hrun : EachStep (GovStep pmlog path) (start files) run) :
    ∀ x ∈ run, path ∈ x.2.all_changes.keys → x.2.GovernorInForce path := by
  have hinit : (start files).SerialInvariant ∧ (start files).GovFollowed path :=
    ⟨start_invariant files,
      ⟨⟨by simp [start, slist], by simp [start, slist], List.Pairwise.nil⟩, by simp [start, slist]⟩⟩
  intro x hx hkey
  obtain ⟨hserial, hfollowed⟩ := hrun.invariant hinit (fun _ _ _ h => h.invariant) x hx
  have hmem : ∀ e, e ∈ x.2.in_force path ↔ e ∈ x.2.slist path := fun e => by
    rw [← hserial.store.slist_in_force, Multiset.mem_coe]
  obtain ⟨top, rest, hcons⟩ := List.exists_cons_of_ne_nil (hserial.store.mem_keys_iff.mp hkey)
  have htop : top ∈ (x.2.slist path).head? := by rw [hcons]; rfl
  have hprecedes : ∀ e ∈ x.2.in_force path, e = top ∨ GovPrecedes top e := fun e he =>
    hfollowed.list.head_precedes htop ((hmem e).mp he)
  refine ⟨top, htop, (hmem top).mpr (List.mem_of_mem_head? htop), ?_, ?_, hfollowed.file top htop⟩
  · rintro ⟨e, he, huserspace⟩
    obtain rfl | htop_userspace | ⟨hnot, _⟩ := hprecedes e he
    · exact huserspace
    · exact htop_userspace
    · exact absurd huserspace hnot
  · intro hnone e he hne
    obtain heq | huserspace | ⟨_, hearlier⟩ := hprecedes e he
    · exact absurd heq hne
    · exact absurd ⟨top, (hmem top).mpr (List.mem_of_mem_head? htop), huserspace⟩ hnone
    · exact hearlier

/-- An ordinary client and a resource manager that change the governor of a CPU; the client leaves. -/
def governor_run : List (Operation × Daemon) :=
  let request (gov : PwrAttrGov) : SetReq := ⟨0, .GOV, .UINT64, 0, ⟨gov.ivalue⟩, "scaling_governor"⟩
  run_of (perform some)
    [.connect 4 ⟨1000⟩, .request 4 (.PwrAUTH .APP "app") {} (1, 2), .connect 5 ⟨0⟩,
      .request 5 (.PwrAUTH .RM "rm") {} (1, 2), .request 4 (.PwrSET (request .LINUX_USERSPACE)) {} (3, 4),
      .request 5 (.PwrSET (request .LINUX_POWERSAVE)) {} (5, 6),
      .disconnect 4 {} [⟨2, request .LINUX_USERSPACE, some 0, 4⟩]]
    (start fun _ => .line "ondemand")

theorem governor_in_force_governor_run :
    (∃ x ∈ governor_run, "scaling_governor" ∈ x.2.all_changes.keys) ∧
    ∀ x ∈ governor_run, "scaling_governor" ∈ x.2.all_changes.keys → x.2.GovernorInForce "scaling_governor" := by
  refine ⟨by decide, ?_⟩
  refine governor_in_force some "scaling_governor" (fun _ => .line "ondemand") governor_run ?_
  have hfits : EachStep (fun s op s' => UsesGovernor "scaling_governor" op ∧ s.ClockAdvances op ∧ s.Permitted op ∧
      s'.io_failed = false) (start fun _ => .line "ondemand") governor_run := by decide
  exact ((eachStep_run_of _ _ _).and hfits).imp fun _ _ _ h => ⟨h.2.1, h.2.2.1, h.2.2.2.1, h.1, h.2.2.2.2⟩

end Runs

end Daemon

end pwrapi.daemon
