import PowerApi.Daemon.Lists
import PowerApi.Daemon.Numeric

open SortedList

namespace pwrapi.daemon

/-- The control file has the value of the record, as the record's attribute reads and compares values. -/
def Holds (e : SetInfo) (file : ControlFile) : Prop :=
  ∃ value, read_attr_file e.setreq.attr e.setreq.data_type file = some value ∧
    value_compare e.setreq.data_type value e.setreq.value = 0

instance (e : SetInfo) (file : ControlFile) : Decidable (Holds e file) :=
  decidable_of_iff (∃ value ∈ read_attr_file e.setreq.attr e.setreq.data_type file,
    value_compare e.setreq.data_type value e.setreq.value = 0) Iff.rfl

/-- The value of the record is not changed by being written to a file and read again. -/
def Reproduced (e : SetInfo) : Prop :=
  value_compare e.setreq.data_type (stored_value e.setreq.attr e.setreq.data_type e.setreq.value) e.setreq.value = 0

instance (e : SetInfo) : Decidable (Reproduced e) := inferInstanceAs (Decidable (_ = _))

section Holds

variable {usage : Usage} {path : String} {a b : SetInfo} {file : ControlFile}

theorem Numeric.ne_gov {attr : PwrAttrName} (h : Numeric attr) : attr ≠ .GOV := by
  rintro rfl
  revert h
  decide

/-- A value that compares equal to a number is that number. -/
theorem value_compare_zero_iff_right {data_type : PwrAttrDataType} {v1 v2 : TypeUnion}
    (h2 : IsNumber data_type v2) :
    value_compare data_type v1 v2 = 0 ↔
      IsNumber data_type v1 ∧ value_rank data_type v1 = value_rank data_type v2 := by
  constructor
  · intro h
    have h1 : IsNumber data_type v1 := by
      rintro rfl
      simp only [value_compare] at h
      split at h
      · next hfeq =>
        simp only [Binary64.feq, Bool.and_eq_true, Bool.not_eq_true'] at hfeq
        exact hfeq.1.1
      · split at h <;> cases h
    exact ⟨h1, (value_compare_zero_iff h1 h2).mp h⟩
  · rintro ⟨h1, heq⟩
    exact (value_compare_zero_iff h1 h2).mpr heq

theorem rank_eq_iff (ha : OnPath usage path a) (hb : OnPath usage path b) :
    rank a = rank b ↔
      value_rank (usage path).2 a.setreq.value = value_rank (usage path).2 b.setreq.value := by
  obtain ⟨hpa, hattr_a, htype_a, _⟩ := ha
  obtain ⟨hpb, hattr_b, htype_b, _⟩ := hb
  rw [hpa] at hattr_a htype_a
  rw [hpb] at hattr_b htype_b
  rw [rank, rank, hattr_a, hattr_b, htype_a, htype_b]
  split <;> omega

theorem holds_iff (ha : OnPath usage path a) :
    Holds a file ↔ ∃ value, read_attr_file (usage path).1 (usage path).2 file = some value ∧
      IsNumber (usage path).2 value ∧ value_rank (usage path).2 value = value_rank (usage path).2 a.setreq.value := by
  obtain ⟨hpath, hattr, htype, hnumber⟩ := ha
  rw [hpath] at hattr htype hnumber
  simp only [Holds, hattr, htype, value_compare_zero_iff_right hnumber]

/-- A file has the values of all entries of one rank or of none of them. -/
theorem holds_congr (ha : OnPath usage path a) (hb : OnPath usage path b) (hrank : rank a = rank b) :
    Holds a file ↔ Holds b file := by
  rw [holds_iff ha, holds_iff hb, (rank_eq_iff ha hb).mp hrank]

/-- No file has the values of entries of two ranks. -/
theorem rank_eq_of_holds (ha : OnPath usage path a) (hb : OnPath usage path b) (hfile_a : Holds a file)
    (hfile_b : Holds b file) : rank a = rank b := by
  obtain ⟨va, hreada, _, hranka⟩ := (holds_iff ha).mp hfile_a
  obtain ⟨vb, hreadb, _, hrankb⟩ := (holds_iff hb).mp hfile_b
  rw [hreada] at hreadb
  cases hreadb
  rw [rank_eq_iff ha hb, ← hranka, hrankb]

theorem stored_value_is_number {attr : PwrAttrName} {data_type : PwrAttrDataType} {value : TypeUnion}
    (h : IsNumber data_type value) : IsNumber data_type (stored_value attr data_type value) := by
  rintro rfl
  have hsix := Binary64.six_decimals_is_nan (h rfl)
  cases attr with
  | CSTATE_LIMIT => exact h rfl
  | _ => exact hsix

/-- After a write the file is read as what the write stored. -/
theorem read_written {io : Io} (hnumeric : Numeric (usage path).1) (ha : OnPath usage path a)
    (hwrite : Daemon.write_fails io a file = false) :
    read_attr_file (usage path).1 (usage path).2 (Daemon.written_file io a file) =
      some (stored_value (usage path).1 (usage path).2 a.setreq.value) := by
  obtain ⟨hpath, hattr, htype, _⟩ := ha
  rw [hpath] at hattr htype
  have hwritten := Daemon.written_file_of_not_fails hwrite
  rw [hattr, htype] at hwritten
  exact read_attr_file_of_write hnumeric.ne_gov hwritten

/-- A value that was written is in the file if six decimals, where it is a double, reproduce it. -/
theorem holds_written_iff {io : Io} (hnumeric : Numeric (usage path).1) (ha : OnPath usage path a)
    (hwrite : Daemon.write_fails io a file = false) : Holds a (Daemon.written_file io a file) ↔ Reproduced a := by
  have hread := read_written hnumeric ha hwrite
  obtain ⟨hpath, hattr, htype, _⟩ := ha
  rw [hpath] at hattr htype
  rw [Holds, Reproduced, hattr, htype, hread]
  constructor
  · rintro ⟨value, hvalue, hcompare⟩
    cases hvalue
    exact hcompare
  · exact fun hcompare => ⟨_, rfl, hcompare⟩

end Holds

namespace Daemon

/-- The control file of the path has the value of the head of the path's list. -/
def FollowsHead (s : Daemon) (path : String) : Prop :=
  ∃ top, (s.slist path).head? = some top ∧ Holds top (s.files path)

instance (s : Daemon) (path : String) : Decidable (s.FollowsHead path) :=
  decidable_of_iff (∃ top ∈ (s.slist path).head?, Holds top (s.files path)) Iff.rfl

theorem followsHead_iff {s : Daemon} {path : String} {top : SetInfo} (htop : (s.slist path).head? = some top) :
    s.FollowsHead path ↔ Holds top (s.files path) := by
  rw [FollowsHead, htop]
  simp

/-- The control file of every path that is a key of `all_changes` has the value of the head of its list. -/
def FilesFollowHeads (s : Daemon) : Prop := ∀ path ∈ s.all_changes.keys, s.FollowsHead path

instance (s : Daemon) : Decidable s.FilesFollowHeads :=
  inferInstanceAs (Decidable (∀ path ∈ s.all_changes.keys, s.FollowsHead path))

/-- Each new head that the rollback of a socket's changes writes is reproduced by its file. -/
def RestoresHeads (s : Daemon) (skinfo : Nat) : Prop :=
  ∀ path ∈ s.all_changes.keys, ∀ e ∈ s.my_change skinfo path, ∀ top ∈ (without skinfo (s.slist path)).head?,
    attr_value_comp e top < 0 → Reproduced top

instance (s : Daemon) (skinfo : Nat) : Decidable (s.RestoresHeads skinfo) :=
  inferInstanceAs (Decidable (∀ path ∈ s.all_changes.keys, ∀ e ∈ s.my_change skinfo path,
    ∀ top ∈ (without skinfo (s.slist path)).head?, attr_value_comp e top < 0 → Reproduced top))

section Rollback

variable {usage : Usage} {io : Io} {client_socket : Int} {skinfo : Nat} {s s' : Daemon} {path : String} {e : SetInfo}

/-- Taking out the entry of a closing socket leaves the file at the value of the
new head: either the entry was strictly first and the new head is written, or the
old head's rank is still the lowest. -/
theorem Destructs.follows_head_iff (hdestructs : s.Destructs io client_socket skinfo s')
    (hnumeric : ∀ path, Numeric (usage path).1) (hinv : s.StoreInvariant) (hordered : s.Ordered usage)
    (hmine : s.my_change skinfo path = some e) (hfollows : s.FollowsHead path)
    (hwrite : undo_fails io e (remove SetInfo.addr (s.slist path) e) (s.files path) = false) :
    s'.FollowsHead path ↔
      ∀ top ∈ (without skinfo (s.slist path)).head?, attr_value_comp e top < 0 → Reproduced top := by
  obtain ⟨hslist, hfile⟩ := hdestructs.touched path e hmine
  have hcompare := attr_value_comp_rank (hnumeric path)
  have hmem : e ∈ s.slist path := hinv.balanced.mem_slist.mpr (Or.inr ⟨skinfo, hmine⟩)
  have hperm := perm_cons_remove (hinv.balanced.nodup path) hmem
  obtain ⟨top, rest, hcons⟩ := List.exists_cons_of_ne_nil (hinv.remains hmine)
  have htop_remains : top ∈ remove SetInfo.addr (s.slist path) e := by
    rw [hcons]
    exact List.mem_cons_self
  have htop_mem : top ∈ s.slist path := (remove_sublist _ _ _).subset htop_remains
  have hpath_e := hordered.entries path e hmem
  have hpath_top := hordered.entries path top htop_mem
  have hwithout : without skinfo (s.slist path) = top :: rest := by rw [← hcons, hinv.balanced.remove_change hmine, without]
  have htop : (s'.slist path).head? = some top := by
    rw [hslist, hcons]
    rfl
  rw [followsHead_iff htop, hfile, hcons, hwithout, undone_file]
  simp only [List.head?_cons, Option.mem_some_iff, forall_eq']
  rw [hcons, undo_fails] at hwrite
  by_cases hfirst : attr_value_comp e top < 0
  · simp only [hfirst, decide_true, Bool.true_and] at hwrite
    simp only [hfirst, if_true, forall_const]
    exact holds_written_iff (hnumeric path) hpath_top hwrite
  · rw [if_neg hfirst]
    refine iff_of_true ?_ fun h => absurd h hfirst
    obtain ⟨head, hhead, hholds⟩ := hfollows
    have hhead_mem : head ∈ s.slist path := List.mem_of_mem_head? hhead
    have hle : rank head ≤ rank top :=
      (hordered.sorted path).head_le hcompare (hordered.entries path) hhead htop_mem
    have hge : rank top ≤ rank head := by
      obtain rfl | hremains := List.mem_cons.mp (hperm.mem_iff.mp hhead_mem)
      · rw [hcompare.neg_iff hpath_e hpath_top] at hfirst
        exact not_lt.mp hfirst
      · have hsorted : Sorted attr_value_comp (remove SetInfo.addr (s.slist path) e) :=
          (hordered.sorted path).remove
        refine hsorted.head_le hcompare ?_ (by rw [hcons]; rfl) hremains
        exact fun y hy => hordered.entries path y ((remove_sublist _ _ _).subset hy)
    exact (holds_congr (hordered.entries path head hhead_mem) hpath_top (le_antisymm hle hge)).mp hholds

/-- The files of a closing socket's paths follow their heads exactly when each new head that is written is reproduced. -/
theorem Destructs.follow_heads_iff (hdestructs : s.Destructs io client_socket skinfo s')
    (hnumeric : ∀ path, Numeric (usage path).1) (hinv : s.StoreInvariant) (hordered : s.Ordered usage)
    (hfollow : s.FilesFollowHeads)
    (hwrites : ∀ path e, s.my_change skinfo path = some e →
      undo_fails io e (remove SetInfo.addr (s.slist path) e) (s.files path) = false) :
    (∀ path e, s.my_change skinfo path = some e → s'.FollowsHead path) ↔ s.RestoresHeads skinfo := by
  have hkey : ∀ path e, s.my_change skinfo path = some e → path ∈ s.all_changes.keys := fun path e hmine =>
    hinv.mem_keys_iff.mpr (List.ne_nil_of_mem (hinv.balanced.mem_slist.mpr (Or.inr ⟨skinfo, hmine⟩)))
  have hone : ∀ path e, s.my_change skinfo path = some e → (s'.FollowsHead path ↔
      ∀ top ∈ (without skinfo (s.slist path)).head?, attr_value_comp e top < 0 → Reproduced top) :=
    fun path e hmine => hdestructs.follows_head_iff hnumeric hinv hordered hmine (hfollow path (hkey path e hmine))
      (hwrites path e hmine)
  constructor
  · intro hall path _ e hmine
    exact (hone path e hmine).mp (hall path e hmine)
  · intro hrestores path e hmine
    exact (hone path e hmine).mpr (hrestores path (hkey path e hmine) e hmine)

end Rollback

end Daemon

end pwrapi.daemon
