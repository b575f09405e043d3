import PowerApi.Daemon.Files
import PowerApi.Daemon.Lists
import PowerApi.Daemon.StoreRuns

open SortedList Execution

namespace pwrapi.daemon.Daemon

/-- The entries of a path that stay when a request of a socket is processed:
those of the other sockets and, unless the request is persistent, the default. -/
def staying (s : Daemon) (skinfo : Nat) (sk : SocketInfo) (path : String) : List SetInfo :=
  (without skinfo (s.slist path)).filter fun e => !is_persistent (some sk) || e.skinfo.isSome

/-- The request comes before or ties with the entries that stay and with the
default that is read for it when it is the first request for its path. -/
def Prevails (s : Daemon) (skinfo : Nat) (sk : SocketInfo) (newset : SetInfo) : Prop :=
  (∀ e ∈ s.staying skinfo sk newset.setreq.path, attr_value_comp newset e ≤ 0) ∧
    (is_persistent (some sk) = false → s.def_values.lookup newset.setreq.path = none →
      ∀ value ∈ read_attr_file newset.setreq.attr newset.setreq.data_type (s.files newset.setreq.path),
        attr_value_comp newset { newset with setreq := { newset.setreq with value } } ≤ 0)

instance (s : Daemon) (skinfo : Nat) (sk : SocketInfo) (newset : SetInfo) :
    Decidable (s.Prevails skinfo sk newset) := inferInstanceAs (Decidable (_ ∧ _))

/-- A request keeps the control file at the value of the head when it prevails and
its value is reproduced by the file, or when the file is at the value of the head
without being written: a default was just read from it, or an entry that stays
ties with the head. -/
def KeepsFile (s : Daemon) (skinfo : Nat) (sk : SocketInfo) (newset : SetInfo) : Prop :=
  if s.Prevails skinfo sk newset then Reproduced newset
  else s.def_values.lookup newset.setreq.path = none ∨
    ∃ e ∈ s.staying skinfo sk newset.setreq.path, ∃ top ∈ (s.slist newset.setreq.path).head?, attr_value_comp e top = 0

instance (s : Daemon) (skinfo : Nat) (sk : SocketInfo) (newset : SetInfo) :
    Decidable (s.KeepsFile skinfo sk newset) := inferInstanceAs (Decidable (ite _ _ _))

/-- An operation keeps the files at the values of the heads: a set request keeps
the file of its path, a disconnect writes heads that are reproduced. -/
def KeepsHead (s : Daemon) : Operation → Prop
  | .request client_socket (.PwrSET set) _ _ => ∀ skinfo sk, s.Accepts client_socket skinfo sk →
    s.KeepsFile skinfo sk (s.queued_item skinfo set)
  | .disconnect client_socket _ _ => ∀ skinfo ∈ s.open_sockets.lookup client_socket, s.RestoresHeads skinfo
  | _ => True

instance (s : Daemon) (op : Operation) : Decidable (s.KeepsHead op) :=
  match op with
  | .connect _ _ => .isTrue trivial
  | .request _ (.PwrAUTH _ _) _ _ => .isTrue trivial
  | .request _ (.PwrLOGLVL _) _ _ => .isTrue trivial
  | .request _ .PwrDUMP _ _ => .isTrue trivial
  | .request _ (.OTHER _) _ _ => .isTrue trivial
  | .request client_socket (.PwrSET set) _ _ =>
    decidable_of_iff (∀ skinfo ∈ s.open_sockets.lookup client_socket, ∀ sk ∈ s.sockets.lookup skinfo,
        sk.role ≠ .NOT_SPECIFIED → s.KeepsFile skinfo sk (s.queued_item skinfo set))
      ⟨fun h skinfo sk haccepts => h skinfo haccepts.1 sk haccepts.2.1 haccepts.2.2,
        fun h skinfo hopen sk hsk hrole => h skinfo sk ⟨hopen, hsk, hrole⟩⟩
  | .disconnect client_socket _ _ =>
    inferInstanceAs (Decidable (∀ skinfo ∈ s.open_sockets.lookup client_socket, s.RestoresHeads skinfo))

section Listed

variable {usage : Usage} {io : Io} {now : UInt64} {newset : SetInfo} {s s₁ : Daemon} {skinfo : Nat} {sk : SocketInfo}

theorem mem_staying {path : String} {e : SetInfo} :
    e ∈ s.staying skinfo sk path ↔ e ∈ s.slist path ∧ e.skinfo ≠ some skinfo ∧
      (is_persistent (some sk) = true → e.skinfo.isSome = true) := by
  rw [staying, List.mem_filter, mem_without, and_assoc]
  cases is_persistent (some sk) <;> simp

/-- The entries that stay are still listed when the new record is, and the other
entries have its rank, or there is only a default just read from the control file. -/
theorem listed_entries (hdef : DefsetStep io now (is_persistent (some sk)) newset s s₁) (hinv : s.StoreInvariant)
    (hordered : s.Ordered usage) (hfiles : HoldNumbers usage s.files) (hfits : FitsUsage usage newset.setreq)
    (stamp : UInt64) :
    (∀ e ∈ s.staying skinfo sk newset.setreq.path, e ∈ (s₁.listed skinfo stamp newset).slist newset.setreq.path) ∧
      ∀ e ∈ (s₁.listed skinfo stamp newset).slist newset.setreq.path,
        e ∈ s.staying skinfo sk newset.setreq.path ∨ rank e = rank newset ∨
          (is_persistent (some sk) = false ∧ s.def_values.lookup newset.setreq.path = none ∧
            Holds e (s.files newset.setreq.path)) := by
  have hb₁ := hdef.balanced hinv.balanced
  have hmem : ∀ e, e ∈ (s₁.listed skinfo stamp newset).slist newset.setreq.path ↔
      e = { newset with timestamp := stamp } ∨ (e ∈ s₁.slist newset.setreq.path ∧ e.skinfo ≠ some skinfo) := by
    intro e
    rw [listed_slist hb₁, if_pos rfl, mem_insert_sorted, mem_without]
  cases hdef with
  | first value hnone hpersist hread =>
    have hnil : s.staying skinfo sk newset.setreq.path = [] := by
      rw [staying, hinv.defaulted.slist_nil hnone]
      rfl
    have hone : (({ s with next_addr := s.next_addr + 1, clock := now } : Daemon).set_insert
        (s.first_default newset value now) .def_values).slist newset.setreq.path = [s.first_default newset value now] :=
      first_slist hinv.defaulted (s.first_default newset value now) hnone _ _
    refine ⟨by simp [hnil], fun e he => Or.inr ?_⟩
    obtain rfl | ⟨he, _⟩ := (hmem e).mp he
    · exact Or.inl (rank_congr rfl)
    rw [hone, List.mem_singleton] at he
    subst he
    cases hper : is_persistent (some sk) with
    | true =>
      refine Or.inl (rank_congr ?_)
      rw [first_default, hpersist hper]
    | false =>
      refine Or.inr ⟨rfl, hnone, value, hread hper, ?_⟩
      have hread' := hread hper
      rw [hfits.attr, hfits.data_type] at hread'
      have hnumber := hfiles _ value hread'
      change value_compare newset.setreq.data_type value value = 0
      rw [hfits.data_type, value_compare_zero_iff hnumber hnumber]
  | replaced d hd hpersist =>
    have hlist := replaced_slist hinv.balanced hd now
    simp only [hlist, mem_insert_sorted, List.mem_filter] at hmem
    constructor
    · intro e he
      obtain ⟨hin, howner, hper⟩ := mem_staying.mp he
      exact (hmem e).mpr (Or.inr ⟨Or.inr ⟨hin, hper hpersist⟩, howner⟩)
    · intro e he
      obtain rfl | ⟨rfl | ⟨hin, hsome⟩, howner⟩ := (hmem e).mp he
      · exact Or.inr (Or.inl (rank_congr rfl))
      · have hd_path := hordered.entries _ d (hinv.balanced.mem_slist.mpr (Or.inl hd))
        have hreplaced : OnPath usage newset.setreq.path (replaced_default d newset now) := by
          refine ⟨hd_path.1, ?_⟩
          have hnumber : IsNumber (usage d.setreq.path).2 newset.setreq.value := hd_path.1 ▸ hfits.number
          exact hd_path.2.with_value hnumber
        exact Or.inr (Or.inl ((rank_eq_iff hreplaced ⟨rfl, hfits⟩).mpr rfl))
      · exact Or.inl (mem_staying.mpr ⟨hin, howner, fun _ => hsome⟩)
  | kept d hd hpersist =>
    constructor
    · intro e he
      obtain ⟨hin, howner, _⟩ := mem_staying.mp he
      exact (hmem e).mpr (Or.inr ⟨hin, howner⟩)
    · intro e he
      obtain rfl | ⟨hin, howner⟩ := (hmem e).mp he
      · exact Or.inr (Or.inl (rank_congr rfl))
      · exact Or.inl (mem_staying.mpr ⟨hin, howner, by simp [hpersist]⟩)

/-- A default that is read from the control file is listed with the new record. -/
theorem first_default_listed {value : TypeUnion} (hdef : DefsetStep io now (is_persistent (some sk)) newset s s₁)
    (hinv : s.StoreInvariant) (hper : is_persistent (some sk) = false)
    (hnone : s.def_values.lookup newset.setreq.path = none)
    (hread : read_attr_file newset.setreq.attr newset.setreq.data_type (s.files newset.setreq.path) = some value)
    (skinfo : Nat) (stamp : UInt64) :
    s.first_default newset value now ∈ (s₁.listed skinfo stamp newset).slist newset.setreq.path := by
  rw [listed_slist (hdef.balanced hinv.balanced), if_pos rfl, mem_insert_sorted, mem_without]
  cases hdef with
  | first value' _ _ hread' =>
    obtain rfl : value' = value := Option.some.inj ((hread' hper).symm.trans hread)
    have hone := first_slist hinv.defaulted (s.first_default newset value' now) hnone (s.next_addr + 1) now
    refine Or.inr ⟨?_, by simp [first_default]⟩
    exact hone ▸ List.mem_cons_self
  | replaced d hd =>
    rw [hnone] at hd
    cases hd
  | kept d hd =>
    rw [hnone] at hd
    cases hd

/-- The new record ties with the head of its list exactly when the request prevails. -/
theorem tie_iff_prevails {stamp : UInt64} {top : SetInfo} (hnumeric : ∀ path, Numeric (usage path).1)
    (hdef : DefsetStep io now (is_persistent (some sk)) newset s s₁) (hinv : s.StoreInvariant)
    (hordered : s.Ordered usage) (hfiles : HoldNumbers usage s.files) (hfits : FitsUsage usage newset.setreq)
    (hlisted : (s₁.listed skinfo stamp newset).Ordered usage)
    (htop : ((s₁.listed skinfo stamp newset).slist newset.setreq.path).head? = some top) :
    attr_value_comp { newset with timestamp := stamp } top = 0 ↔ s.Prevails skinfo sk newset := by
  have hcompare := attr_value_comp_rank (hnumeric newset.setreq.path)
  obtain ⟨hstay, hentries⟩ := listed_entries hdef hinv hordered hfiles hfits stamp
  have htop_mem := List.mem_of_mem_head? htop
  have htop_path := hlisted.entries _ top htop_mem
  have hnew_path : OnPath usage newset.setreq.path { newset with timestamp := stamp } := ⟨rfl, hfits⟩
  have hleast : ∀ e ∈ (s₁.listed skinfo stamp newset).slist newset.setreq.path, rank top ≤ rank e :=
    fun e he => (hlisted.sorted _).head_le hcompare (hlisted.entries _) htop he
  have hnew_rank : rank { newset with timestamp := stamp } = rank newset := rank_congr rfl
  have hle_iff : ∀ e ∈ s.staying skinfo sk newset.setreq.path,
      (attr_value_comp newset e ≤ 0 ↔ rank newset ≤ rank e) := fun e he =>
    hcompare.le_iff ⟨rfl, hfits⟩ (hordered.entries _ e (mem_staying.mp he).1)
  -- the default that is read for the request, with the rank that it has in the list
  have hdefault_iff : ∀ value, read_attr_file newset.setreq.attr newset.setreq.data_type
      (s.files newset.setreq.path) = some value →
      (attr_value_comp newset { newset with setreq := { newset.setreq with value } } ≤ 0 ↔
        rank newset ≤ rank { newset with setreq := { newset.setreq with value } }) := by
    intro value hread
    rw [hfits.attr, hfits.data_type] at hread
    exact hcompare.le_iff ⟨rfl, hfits⟩ ⟨rfl, hfits.with_value (hfiles _ value hread)⟩
  rw [hcompare.zero_iff hnew_path htop_path, hnew_rank]
  constructor
  · intro hrank
    refine ⟨fun e he => ?_, fun hper hnone value hread => ?_⟩
    · rw [hle_iff e he, hrank]
      exact hleast e (hstay e he)
    · have hmem := first_default_listed hdef hinv hper hnone hread skinfo stamp
      rw [hdefault_iff value hread, hrank]
      exact (hleast _ hmem).trans_eq (rank_congr rfl)
  · rintro ⟨hall, hdefault⟩
    refine le_antisymm ?_ (hnew_rank ▸ hleast _ ?_)
    · obtain htop_stays | htop_new | ⟨hper, hnone, hholds⟩ := hentries top htop_mem
      · exact (hle_iff top htop_stays).mp (hall top htop_stays)
      · exact htop_new.ge
      · obtain ⟨value, hread, hnumber, hvalue⟩ := (holds_iff htop_path).mp hholds
        rw [← hfits.attr, ← hfits.data_type] at hread
        have hread_path : OnPath usage newset.setreq.path { newset with setreq := { newset.setreq with value } } :=
          ⟨rfl, hfits.with_value hnumber⟩
        rw [← (rank_eq_iff hread_path htop_path).mpr hvalue]
        exact (hdefault_iff value hread).mp (hdefault hper hnone value hread)
    · rw [listed_slist (hdef.balanced hinv.balanced), if_pos rfl]
      exact mem_insert_sorted.mpr (Or.inl rfl)

end Listed

section Process

variable {usage : Usage} {io : Io} {now : UInt64 × UInt64} {newset : SetInfo} {s s' : Daemon} {skinfo : Nat}
  {sk : SocketInfo} {path : String}

/-- Processing a request leaves the lists and files of the other paths alone. -/
theorem ProcessStep.frame (h : ProcessStep io now newset s s') (hinv : s.StoreInvariant)
    (hne : path ≠ newset.setreq.path) : s'.slist path = s.slist path ∧ s'.files path = s.files path := by
  cases h with
  | refused hsame => exact ⟨hsame.slist_eq path, congrFun hsame.files path⟩
  | applied skinfo sk s₁ top hskinfo hsk hdef htop hsame =>
    have hlisted : (s₁.listed skinfo now.2 newset).slist path = s.slist path := by
      rw [listed_slist (hdef.balanced hinv.balanced), if_neg hne, hdef.slist_of_ne hinv.balanced hne]
    refine ⟨(hsame.slist_eq path).trans hlisted, ?_⟩
    rw [hsame.files]
    exact Function.update_of_ne hne _ _

/-- The list of the request's path is not empty afterwards. -/
theorem ProcessStep.slist_ne_nil (h : ProcessStep io now newset s s') (hio : s'.io_failed = false) :
    s'.slist newset.setreq.path ≠ [] := by
  cases h with
  | refused hsame =>
    rw [hsame.io_failed] at hio
    cases hio
  | applied skinfo sk s₁ top hskinfo hsk hdef htop hsame =>
    have hslist := hsame.slist_eq newset.setreq.path
    rw [hslist]
    exact List.ne_nil_of_mem (List.mem_of_mem_head? htop)

/-- After a request without file errors, the file is at the value of the head as
far as the request keeps it: it was written where the new record ties with the
head, and otherwise the head is an entry that was there before or was just read. -/
theorem ProcessStep.follows_head_iff (h : ProcessStep io now newset s s') (hnumeric : ∀ path, Numeric (usage path).1)
    (hinv : s.StoreInvariant) (hordered : s.Ordered usage) (hfiles : HoldNumbers usage s.files)
    (hfollow : s.FilesFollowHeads) (hfits : FitsUsage usage newset.setreq) (hskinfo : newset.skinfo = some skinfo)
    (hsk : s.sockets.lookup skinfo = some sk) (hio : s'.io_failed = false) :
    s'.FollowsHead newset.setreq.path ↔ s.KeepsFile skinfo sk newset := by
  cases h with
  | refused hsame =>
    rw [hsame.io_failed] at hio
    cases hio
  | applied skinfo' sk' s₁ top hskinfo' hsk' hdef htop hsame =>
    obtain rfl : skinfo' = skinfo := Option.some.inj (hskinfo'.symm.trans hskinfo)
    obtain rfl : sk' = sk := Option.some.inj (hsk'.symm.trans hsk)
    have hcompare := attr_value_comp_rank (hnumeric newset.setreq.path)
    have hlisted := listed_ordered hnumeric (DefsetStep.ordered hnumeric hordered hinv.balanced hfiles hfits hdef)
      skinfo' now.2 hfits
    obtain ⟨hstay, hentries⟩ := listed_entries hdef hinv hordered hfiles hfits now.2
    have htie_iff := tie_iff_prevails hnumeric hdef hinv hordered hfiles hfits hlisted htop
    have hfile : s'.files newset.setreq.path =
        applied_file io { newset with timestamp := now.2 } top (s.files newset.setreq.path) := by
      rw [hsame.files]
      exact Function.update_self _ _ _
    have hwrite : apply_fails io { newset with timestamp := now.2 } top (s.files newset.setreq.path) = false := by
      rw [hsame.io_failed, Bool.or_eq_false_iff] at hio
      exact hio.2
    have htop_mem := List.mem_of_mem_head? htop
    have hnew_path : OnPath usage newset.setreq.path { newset with timestamp := now.2 } := ⟨rfl, hfits⟩
    have htop_path := hlisted.entries _ top htop_mem
    have htop' : (s'.slist newset.setreq.path).head? = some top := by
      rw [hsame.slist_eq]
      exact htop
    rw [followsHead_iff htop', hfile, KeepsFile]
    by_cases htie : attr_value_comp { newset with timestamp := now.2 } top = 0
    · rw [if_pos (htie_iff.mp htie), applied_file, if_pos htie,
        ← holds_congr hnew_path htop_path ((hcompare.zero_iff hnew_path htop_path).mp htie)]
      simp only [apply_fails, htie, decide_true, Bool.true_and] at hwrite
      exact holds_written_iff (hnumeric _) hnew_path hwrite
    · rw [if_neg (mt htie_iff.mpr htie), applied_file, if_neg htie]
      obtain htop_stays | htop_new | ⟨_, hnone, hholds⟩ := hentries top htop_mem
      · have htop_old := (mem_staying.mp htop_stays).1
        obtain ⟨head, hhead, hholds⟩ := hfollow _ (hinv.mem_keys_iff.mpr (List.ne_nil_of_mem htop_old))
        have hhead_path := hordered.entries _ head (List.mem_of_mem_head? hhead)
        have hhead_le : rank head ≤ rank top :=
          (hordered.sorted _).head_le hcompare (hordered.entries _) hhead htop_old
        have hsome : s.def_values.lookup newset.setreq.path ≠ none := fun hnone =>
          List.ne_nil_of_mem htop_old (hinv.defaulted.slist_nil hnone)
        rw [or_iff_right hsome]
        constructor
        · intro hnow
          refine ⟨top, htop_stays, head, hhead, (hcompare.zero_iff htop_path hhead_path).mpr ?_⟩
          exact rank_eq_of_holds htop_path hhead_path hnow hholds
        · rintro ⟨e, he, head', hhead', hzero⟩
          obtain rfl : head' = head := Option.some.inj (hhead'.symm.trans hhead)
          have he_path := hordered.entries _ e (mem_staying.mp he).1
          have heq : rank e = rank head' := (hcompare.zero_iff he_path hhead_path).mp hzero
          have hleast := (hlisted.sorted _).head_le hcompare (hlisted.entries _) htop (hstay e he)
          exact (holds_congr hhead_path htop_path (le_antisymm hhead_le (heq ▸ hleast))).mp hholds
      · refine absurd ((hcompare.zero_iff hnew_path htop_path).mpr ?_) htie
        exact Eq.trans (rank_congr rfl) htop_new.symm
      · exact iff_of_true hholds (Or.inl hnone)

end Process

/-- Once every client has disconnected, every file that was touched has its default value. -/
def AtRest (s : Daemon) : Prop :=
  s.open_sockets = ∅ → ∀ path ∈ s.def_values.keys, ∀ d ∈ s.def_values.lookup path, Holds d (s.files path)

instance (s : Daemon) : Decidable s.AtRest :=
  inferInstanceAs (Decidable (_ → ∀ path ∈ s.def_values.keys, ∀ d ∈ s.def_values.lookup path, Holds d (s.files path)))

/-- An operation whose request fits the usage of its path, with every access to a control file succeeding. -/
def FileStep (pmlog : Pmlog) (usage : Usage) (s : Daemon) (op : Operation) (s' : Daemon) : Prop :=
  Fits usage op ∧ s.Permitted op ∧ s.perform pmlog op = some s' ∧ s'.io_failed = false

section Step

variable {pmlog : Pmlog} {usage : Usage} {op : Operation} {s s' : Daemon}

/-- Without open sockets, the default of a path is the head of its list. -/
theorem FilesFollowHeads.at_rest (h : s.FilesFollowHeads) (hinv : s.StoreInvariant) : s.AtRest := by
  intro hclosed path _ d hd
  have hmem : d ∈ s.slist path := hinv.balanced.mem_slist.mpr (Or.inl hd)
  obtain ⟨top, htop, hholds⟩ := h path (hinv.mem_keys_iff.mpr (List.ne_nil_of_mem hmem))
  obtain htop_def | ⟨skinfo, hmine⟩ := hinv.balanced.mem_slist.mp (List.mem_of_mem_head? htop)
  · obtain rfl : d = top := Option.some.inj (Eq.trans (Eq.symm hd) htop_def)
    exact hholds
  · obtain ⟨sk, hsk, _⟩ := Option.bind_eq_some_iff.mp hmine
    have hopen := (hinv.linked.open_iff sk.sockid skinfo).mpr ⟨sk, hsk, rfl⟩
    rw [hclosed, Finmap.lookup_empty] at hopen
    cases hopen

/-- What was written to the file of a path is read as a number. -/
theorem number_of_written {io : Io} {e : SetInfo} {path : String} {file : ControlFile} {value : TypeUnion}
    (hnumeric : Numeric (usage path).1) (he : OnPath usage path e) (hwrite : write_fails io e file = false)
    (hread : read_attr_file (usage path).1 (usage path).2 (written_file io e file) = some value) :
    IsNumber (usage path).2 value := by
  rw [read_written hnumeric he hwrite] at hread
  cases hread
  obtain ⟨hpath, _, _, hnumber⟩ := he
  rw [hpath] at hnumber
  exact stored_value_is_number hnumber

theorem ProcessStep.hold_numbers {io : Io} {now : UInt64 × UInt64} {newset : SetInfo}
    (h : ProcessStep io now newset s s') (hnumeric : ∀ path, Numeric (usage path).1) (hinv : s.StoreInvariant)
    (hfiles : HoldNumbers usage s.files) (hfits : FitsUsage usage newset.setreq) (hio : s'.io_failed = false) :
    HoldNumbers usage s'.files := by
  intro path value hread
  by_cases hne : path = newset.setreq.path
  · subst hne
    cases h with
    | refused hsame =>
      rw [hsame.files] at hread
      exact hfiles _ value hread
    | applied skinfo sk s₁ top hskinfo hsk hdef htop hsame =>
      rw [hsame.io_failed, Bool.or_eq_false_iff, apply_fails] at hio
      rw [hsame.files] at hread
      simp only [Function.update_self, applied_file] at hread
      split at hread
      · next htie =>
        simp only [htie, decide_true, Bool.true_and] at hio
        exact number_of_written (e := { newset with timestamp := now.2 }) (hnumeric _) ⟨rfl, hfits⟩ hio.2 hread
      · exact hfiles _ value hread
  · rw [(h.frame hinv hne).2] at hread
    exact hfiles path value hread

theorem Destructs.hold_numbers {io : Io} {client_socket : Int} {skinfo : Nat}
    (h : s.Destructs io client_socket skinfo s') (hnumeric : ∀ path, Numeric (usage path).1)
    (hordered : s.Ordered usage) (hfiles : HoldNumbers usage s.files) (hio : s'.io_failed = false) :
    HoldNumbers usage s'.files := by
  intro path value hread
  cases hmine : s.my_change skinfo path with
  | none =>
    rw [(h.untouched path hmine).2] at hread
    exact hfiles path value hread
  | some e =>
    have hwrite := (h.no_failure.mp hio).2 path e hmine
    rw [(h.touched path e hmine).2] at hread
    cases hremaining : remove SetInfo.addr (s.slist path) e with
    | nil =>
      rw [hremaining] at hread
      exact hfiles path value hread
    | cons top rest =>
      rw [hremaining, undone_file] at hread
      rw [hremaining, undo_fails] at hwrite
      split at hread
      · next hfirst =>
        simp only [hfirst, decide_true, Bool.true_and] at hwrite
        have htop : top ∈ s.slist path := (remove_sublist SetInfo.addr (s.slist path) e).subset (by simp [hremaining])
        exact number_of_written (hnumeric path) (hordered.entries path top htop) hwrite hread
      · exact hfiles path value hread

theorem StoreStep.hold_numbers (h : s.StoreStep op s') (hnumeric : ∀ path, Numeric (usage path).1)
    (hinv : s.StoreInvariant) (hordered : s.Ordered usage) (hfiles : HoldNumbers usage s.files)
    (hfits : Fits usage op) (hio : s'.io_failed = false) : HoldNumbers usage s'.files := by
  cases h with
  | quiet _ _ hsame =>
    rw [hsame.files]
    exact hfiles
  | set client_socket set io now skinfo sk _ haccepts hprocess =>
    have hset : FitsUsage usage (s.queued_item skinfo set).setreq := hfits
    exact (worker_process_item_step hprocess).hold_numbers hnumeric (next_addr_invariant hinv) hfiles hset hio
  | closed client_socket io order skinfo _ hopen hdestructs => exact hdestructs.hold_numbers hnumeric hordered hfiles hio

/-- The files follow the heads after a step exactly when the step keeps them at the heads' values. -/
theorem StoreStep.follow_heads_iff (h : s.StoreStep op s') (hnumeric : ∀ path, Numeric (usage path).1)
    (hinv : s.StoreInvariant) (hinv' : s'.StoreInvariant) (hordered : s.Ordered usage)
    (hfiles : HoldNumbers usage s.files) (hfollow : s.FilesFollowHeads) (hfits : Fits usage op)
    (hio : s'.io_failed = false) : s'.FilesFollowHeads ↔ s.KeepsHead op := by
  have hframe : ∀ path, s'.slist path = s.slist path ∧ s'.files path = s.files path → s'.slist path ≠ [] →
      s'.FollowsHead path := by
    intro path ⟨hslist, hfile⟩ hne
    rw [FollowsHead, hslist, hfile]
    exact hfollow path (hinv.mem_keys_iff.mpr (hslist ▸ hne))
  cases h with
  | quiet _ _ hsame hrefused hclosed =>
    refine iff_of_true ?_ ?_
    · intro path hpath
      exact hframe path ⟨hsame.slist_eq path, congrFun hsame.files path⟩ (hinv'.mem_keys_iff.mp hpath)
    · unfold KeepsHead
      split
      · exact fun skinfo sk haccepts => absurd haccepts (hrefused _ _ _ _ rfl skinfo sk)
      · intro skinfo hopen
        rw [hclosed _ _ _ rfl] at hopen
        cases hopen
      · trivial
  | set client_socket set io now skinfo sk _ haccepts hprocess =>
    have hstep := worker_process_item_step hprocess
    have hinv₀ := next_addr_invariant hinv
    have hset : FitsUsage usage (s.queued_item skinfo set).setreq := hfits
    have hordered₀ : ({ s with next_addr := s.next_addr + 1 } : Daemon).Ordered usage := hordered.of_slist fun _ => rfl
    have hpath := hstep.follows_head_iff hnumeric hinv₀ hordered₀ hfiles hfollow hset rfl haccepts.2.1 hio
    have hkey : set.path ∈ s'.all_changes.keys := hinv'.mem_keys_iff.mpr (hstep.slist_ne_nil hio)
    have hkeeps : s.KeepsHead (.request client_socket (.PwrSET set) io now) ↔
        s.KeepsFile skinfo sk (s.queued_item skinfo set) := by
      refine ⟨fun hall => hall skinfo sk haccepts, fun hone skinfo' sk' haccepts' => ?_⟩
      obtain rfl : skinfo' = skinfo := Option.some.inj (haccepts'.1.symm.trans haccepts.1)
      obtain rfl : sk' = sk := Option.some.inj (haccepts'.2.1.symm.trans haccepts.2.1)
      exact hone
    rw [hkeeps]
    refine Iff.trans ⟨fun hall => hall set.path hkey, fun hone path hin => ?_⟩ hpath
    by_cases hne : path = set.path
    · exact hne ▸ hone
    · exact hframe path (hstep.frame hinv₀ hne) (hinv'.mem_keys_iff.mp hin)
  | closed client_socket io order skinfo _ hopen hdestructs =>
    have hkeeps : s.KeepsHead (.disconnect client_socket io order) ↔ s.RestoresHeads skinfo := by
      refine ⟨fun hall => hall skinfo hopen, fun hone skinfo' hopen' => ?_⟩
      obtain rfl : skinfo' = skinfo := Option.some.inj (hopen'.symm.trans hopen)
      exact hone
    rw [hkeeps, ← hdestructs.follow_heads_iff hnumeric hinv hordered hfollow (hdestructs.no_failure.mp hio).2]
    constructor
    · intro hall path e hmine
      refine hall path (hinv'.mem_keys_iff.mpr ?_)
      rw [(hdestructs.touched path e hmine).1]
      exact hinv.remains hmine
    · intro htouched path hpath
      cases hmine : s.my_change skinfo path with
      | none => exact hframe path (hdestructs.untouched path hmine) (hinv'.mem_keys_iff.mp hpath)
      | some e => exact htouched path e hmine

end Step

section Runs

variable {pmlog : Pmlog} {usage : Usage} {op : Operation} {s s' : Daemon}

/-- The invariant of runs in which no access to a control file fails. -/
structure FileInvariant (usage : Usage) (s : Daemon) : Prop where
  serial : s.SerialInvariant
  ordered : s.Ordered usage
  numbers : HoldNumbers usage s.files

theorem FileStep.store_step (h : FileStep pmlog usage s op s') (hinv : s.FileInvariant usage) :
    s.StoreStep op s' ∧ s'.SerialInvariant :=
  perform_step hinv.serial h.2.1 h.2.2.1

theorem FileStep.invariant (h : FileStep pmlog usage s op s') (hnumeric : ∀ path, Numeric (usage path).1)
    (hinv : s.FileInvariant usage) : s'.FileInvariant usage := by
  obtain ⟨hstep, hserial⟩ := h.store_step hinv
  obtain ⟨hfits, _, _, hio⟩ := h
  exact ⟨hserial, hstep.ordered hnumeric hinv.ordered hinv.serial.store hinv.numbers hfits,
    hstep.hold_numbers hnumeric hinv.serial.store hinv.ordered hinv.numbers hfits hio⟩

/-- In a run without file errors the control files follow the heads of the lists,
and fall back to the defaults in the end, exactly when every operation keeps them
at the values of the heads. -/
theorem files_follow_heads_iff (pmlog : Pmlog) (usage : Usage) (files : String → ControlFile)
    (run : List (Operation × Daemon)) (hnumeric : ∀ path, Numeric (usage path).1)
    (hfiles : HoldNumbers usage files) (hrun : EachStep (FileStep pmlog usage) (start files) run) :
    (∀ x ∈ run, x.2.FilesFollowHeads ∧ x.2.AtRest) ↔ EachStep (fun s op _ => s.KeepsHead op) (start files) run := by
  have hinit : (start files).FileInvariant usage :=
    ⟨start_invariant files, start_ordered usage files, hfiles⟩
  have hstart : (start files).FilesFollowHeads := by
    intro path hpath
    cases hinit.serial.store.mem_keys_iff.mp hpath rfl
  have hall := hrun.invariant hinit fun _ _ _ h => h.invariant hnumeric
  rw [← hrun.forall_iff (P := FilesFollowHeads) hinit hstart (fun _ _ _ h => h.invariant hnumeric) ?_]
  · refine forall₂_congr fun x hx => ?_
    exact and_iff_left_of_imp fun h => h.at_rest (hall x hx).serial.store
  · intro s op s' hstep hinv hfollow
    obtain ⟨hstore, hserial'⟩ := hstep.store_step hinv
    exact hstore.follow_heads_iff hnumeric hinv.serial.store hserial'.store hinv.ordered hinv.numbers hfollow
      hstep.1 hstep.2.2.2

/-- A run of concrete operations, none of which fails to access a control file. -/
theorem file_steps_of_decide {files : String → ControlFile} {ops : List Operation}
    (h : EachStep (fun s op s' => Fits usage op ∧ s.Permitted op ∧ s'.io_failed = false) (start files)
      (run_of (perform pmlog) ops (start files))) :
    EachStep (FileStep pmlog usage) (start files) (run_of (perform pmlog) ops (start files)) :=
  ((eachStep_run_of _ _ _).and h).imp fun _ _ _ h => ⟨h.2.1, h.2.2.1, h.1, h.2.2.2⟩

/-- The state in which such a run ends. -/
theorem FileInvariant.of_run {files : String → ControlFile} {ops : List Operation}
    (hnumeric : ∀ path, Numeric (usage path).1) (hfiles : HoldNumbers usage files)
    (h : EachStep (fun s op s' => Fits usage op ∧ s.Permitted op ∧ s'.io_failed = false) (start files)
      (run_of (perform pmlog) ops (start files))) :
    (final (start files) (run_of (perform pmlog) ops (start files))).FileInvariant usage := by
  have hinit : (start files).FileInvariant usage := ⟨start_invariant files, start_ordered usage files, hfiles⟩
  exact EachStep.final_of_forall hinit
    ((file_steps_of_decide h).invariant hinit fun _ _ _ hstep => hstep.invariant hnumeric)

theorem files_follow_heads_iff_frequency_run :
    frequency_run.length = 3 ∧ ∀ x ∈ frequency_run, x.2.FilesFollowHeads ∧ x.2.AtRest := by
  have hnumbers : HoldNumbers frequency_usage fun _ => .uint64 10 := by
    intro path value _ hdouble
    cases hdouble
  have hkeeps : EachStep (fun s op _ => s.KeepsHead op) (start fun _ => .uint64 10) frequency_run := by decide
  exact ⟨by decide, (files_follow_heads_iff some frequency_usage (fun _ => .uint64 10) frequency_run
    frequency_usage_numeric hnumbers (file_steps_of_decide (by decide))).mpr hkeeps⟩

/-- A client sets 1 where the default is 10, replaces it by 20 and disconnects: the file stays at 1. -/
theorem files_do_not_follow_heads :
    ¬ ∀ usage files run, (∀ path, Numeric (usage path).1) → HoldNumbers usage files →
      EachStep (FileStep some usage) (start files) run → ∀ x ∈ run, x.2.FilesFollowHeads ∧ x.2.AtRest := by
  intro hclaim
  have hnumbers : HoldNumbers frequency_usage fun _ => .uint64 10 := by
    intro path value _ hdouble
    cases hdouble
  let request (value : UInt64) : SetReq := ⟨0, .FREQ_REQ, .UINT64, 0, ⟨value⟩, "scaling_setspeed"⟩
  let ops : List Operation := [.connect 4 ⟨1000⟩, .request 4 (.PwrAUTH .APP "app") {} (1, 2),
    .request 4 (.PwrSET (request 1)) {} (3, 4), .request 4 (.PwrSET (request 20)) {} (5, 6),
    .disconnect 4 {} [⟨3, request 20, some 0, 6⟩]]
  let run := run_of (perform some) ops (start fun _ => .uint64 10)
  have hrun : EachStep (FileStep some frequency_usage) (start fun _ => .uint64 10) run :=
    file_steps_of_decide (by decide)
  have hstays : ∃ x ∈ run, ¬ x.2.AtRest := by decide
  obtain ⟨x, hx, hnot⟩ := hstays
  exact hnot (hclaim _ _ run frequency_usage_numeric hnumbers hrun x hx).2

end Runs

end pwrapi.daemon.Daemon
