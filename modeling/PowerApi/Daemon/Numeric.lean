import PowerApi.Daemon.Serial

open SortedList

namespace pwrapi.daemon

/-- The attributes whose values are numbers that requests compete with. -/
def Numeric (attr : PwrAttrName) : Prop :=
  attr ∈ [.CSTATE_LIMIT, .FREQ_REQ, .FREQ_LIMIT_MAX, .POWER_LIMIT_MAX, .FREQ_LIMIT_MIN, .POWER_LIMIT_MIN]

instance (attr : PwrAttrName) : Decidable (Numeric attr) := inferInstanceAs (Decidable (_ ∈ _))

/-- The attribute and the data type that each path is used with. -/
abbrev Usage := String → PwrAttrName × PwrAttrDataType

/-- A value that is not NaN where it is used as a double. -/
def IsNumber (data_type : PwrAttrDataType) (value : TypeUnion) : Prop :=
  data_type = .DOUBLE → value.fvalue.is_nan = false

instance (data_type : PwrAttrDataType) (value : TypeUnion) : Decidable (IsNumber data_type value) :=
  inferInstanceAs (Decidable (_ → _))

/-- A request that uses its path with the path's attribute and data type, for a number. -/
structure FitsUsage (usage : Usage) (setreq : SetReq) : Prop where
  attr : setreq.attr = (usage setreq.path).1
  data_type : setreq.data_type = (usage setreq.path).2
  number : IsNumber (usage setreq.path).2 setreq.value

instance (usage : Usage) (setreq : SetReq) : Decidable (FitsUsage usage setreq) :=
  decidable_of_iff (setreq.attr = (usage setreq.path).1 ∧ setreq.data_type = (usage setreq.path).2 ∧
    IsNumber (usage setreq.path).2 setreq.value)
    ⟨fun h => ⟨h.1, h.2.1, h.2.2⟩, fun h => ⟨h.attr, h.data_type, h.number⟩⟩

/-- A request with another number for the path still fits the path's usage. -/
theorem FitsUsage.with_value {usage : Usage} {setreq : SetReq} (h : FitsUsage usage setreq) {value : TypeUnion}
    (hvalue : IsNumber (usage setreq.path).2 value) : FitsUsage usage { setreq with value } :=
  ⟨h.attr, h.data_type, hvalue⟩

/-- The number that a value stands for in comparisons. -/
def value_rank (data_type : PwrAttrDataType) (value : TypeUnion) : Int :=
  match data_type with
  | .UINT64 => value.ivalue.toNat
  | .DOUBLE => value.fvalue.key
  | _ => 0

/-- The rank of a record among the records of its path: the lower, the higher the priority. -/
def rank (e : SetInfo) : Int :=
  match e.setreq.attr with
  | .FREQ_LIMIT_MIN | .POWER_LIMIT_MIN => -value_rank e.setreq.data_type e.setreq.value
  | _ => value_rank e.setreq.data_type e.setreq.value

theorem rank_congr {a b : SetInfo} (h : a.setreq = b.setreq) : rank a = rank b := by
  rw [rank, rank, h]

section Compare

variable {data_type : PwrAttrDataType} {v1 v2 : TypeUnion}

theorem value_compare_zero_iff (h1 : IsNumber data_type v1) (h2 : IsNumber data_type v2) :
    value_compare data_type v1 v2 = 0 ↔ value_rank data_type v1 = value_rank data_type v2 := by
  cases data_type with
  | UINT64 =>
    simp only [value_compare, value_rank, Int.natCast_inj, UInt64.toNat_inj]
    split
    · next heq => simp [heq]
    · next hne =>
      simp only [hne, iff_false]
      split <;> decide
  | DOUBLE =>
    have heq := Binary64.feq_iff_key_eq (h1 rfl) (h2 rfl)
    simp only [value_compare, value_rank]
    split
    · next hfeq => simp [heq.mp hfeq]
    · next hfeq =>
      rw [heq] at hfeq
      simp only [hfeq, iff_false]
      split <;> decide
  | _ => simp [value_compare, value_rank]

theorem value_compare_neg_iff (h1 : IsNumber data_type v1) (h2 : IsNumber data_type v2) :
    value_compare data_type v1 v2 < 0 ↔ value_rank data_type v1 < value_rank data_type v2 := by
  cases data_type with
  | UINT64 =>
    simp only [value_compare, value_rank, UInt64.lt_iff_toNat_lt]
    split
    · next heq => simp [heq]
    · next hne =>
      split
      · next hlt => simp [hlt]
      · next hge =>
        have : ¬((v1.ivalue.toNat : Int) < v2.ivalue.toNat) := by omega
        simp [this]
  | DOUBLE =>
    have heq := Binary64.feq_iff_key_eq (h1 rfl) (h2 rfl)
    have hlt := Binary64.flt_iff_key_lt (h1 rfl) (h2 rfl)
    simp only [value_compare, value_rank]
    split
    · next hfeq => simp [heq.mp hfeq]
    · next hfeq =>
      rw [heq] at hfeq
      split
      · next hflt => simp [hlt.mp hflt]
      · next hflt =>
        rw [hlt] at hflt
        simp [hflt]
  | _ => simp [value_compare, value_rank]

end Compare

/-- The entries that the list of a path may hold. -/
def OnPath (usage : Usage) (path : String) (e : SetInfo) : Prop :=
  e.setreq.path = path ∧ FitsUsage usage e.setreq

section Rank

variable {usage : Usage} {path : String}

/-- On records with one numeric attribute and one data type, the comparison
function compares ranks. -/
theorem attr_value_comp_iff_rank {attr : PwrAttrName} (data_type : PwrAttrDataType) (hnumeric : Numeric attr) :
    ComparesRank attr_value_comp (fun e => e.setreq.attr = attr ∧ e.setreq.data_type = data_type ∧
      IsNumber data_type e.setreq.value) rank := by
  have hcomp : ∀ {a b : SetInfo}, a.setreq.attr = attr ∧ a.setreq.data_type = data_type ∧
      IsNumber data_type a.setreq.value → b.setreq.attr = attr ∧ b.setreq.data_type = data_type ∧
      IsNumber data_type b.setreq.value →
      (attr_value_comp a b < 0 ↔ rank a < rank b) ∧ (attr_value_comp a b = 0 ↔ rank a = rank b) := by
    rintro a b ⟨hattr_a, htype_a, hnum_a⟩ ⟨hattr_b, htype_b, hnum_b⟩
    rw [attr_value_comp, rank, rank, hattr_a, hattr_b, htype_a, htype_b]
    have hup := And.intro (value_compare_neg_iff hnum_a hnum_b) (value_compare_zero_iff hnum_a hnum_b)
    have hdown : (value_compare data_type b.setreq.value a.setreq.value < 0 ↔
          -value_rank data_type a.setreq.value < -value_rank data_type b.setreq.value) ∧
        (value_compare data_type b.setreq.value a.setreq.value = 0 ↔
          -value_rank data_type a.setreq.value = -value_rank data_type b.setreq.value) := by
      rw [value_compare_neg_iff hnum_b hnum_a, value_compare_zero_iff hnum_b hnum_a]
      omega
    simp only [Numeric, List.mem_cons, List.not_mem_nil, or_false] at hnumeric
    obtain rfl | rfl | rfl | rfl | rfl | rfl := hnumeric
    · exact hup
    · exact hup
    · exact hup
    · exact hup
    · exact hdown
    · exact hdown
  exact ⟨fun ha hb => (hcomp ha hb).1, fun ha hb => (hcomp ha hb).2⟩

/-- On the entries of a path with a numeric attribute, the comparison function compares ranks. -/
theorem attr_value_comp_rank (hnumeric : Numeric (usage path).1) :
    ComparesRank attr_value_comp (OnPath usage path) rank := by
  refine (attr_value_comp_iff_rank (usage path).2 hnumeric).mono ?_
  rintro a ⟨hpath, hattr, htype, hnum⟩
  rw [hpath] at hattr htype hnum
  exact ⟨hattr, htype, hnum⟩

end Rank

namespace Daemon

/-- Every list holds entries that fit the usage of its path, in the order of their priority. -/
structure Ordered (usage : Usage) (s : Daemon) : Prop where
  entries : ∀ path, ∀ e ∈ s.slist path, OnPath usage path e
  sorted : ∀ path, Sorted attr_value_comp (s.slist path)

/-- The numbers that a default value could be read as are not NaN. -/
def HoldNumbers (usage : Usage) (files : String → ControlFile) : Prop :=
  ∀ path value, read_attr_file (usage path).1 (usage path).2 (files path) = some value →
    IsNumber (usage path).2 value

/-- A set request uses its path with the path's attribute and data type. -/
def Fits (usage : Usage) : Operation → Prop
  | .request _ (.PwrSET set) _ _ => FitsUsage usage set
  | _ => True

instance (usage : Usage) (op : Operation) : Decidable (Fits usage op) :=
  match op with
  | .request _ (.PwrSET set) _ _ => inferInstanceAs (Decidable (FitsUsage usage set))
  | .request _ (.PwrAUTH _ _) _ _ => .isTrue trivial
  | .request _ (.PwrLOGLVL _) _ _ => .isTrue trivial
  | .request _ .PwrDUMP _ _ => .isTrue trivial
  | .request _ (.OTHER _) _ _ => .isTrue trivial
  | .connect _ _ => .isTrue trivial
  | .disconnect _ _ _ => .isTrue trivial

section Ordered

variable {usage : Usage} {s s' : Daemon} {e : SetInfo}

theorem start_ordered (usage : Usage) (files : String → ControlFile) : (start files).Ordered usage where
  entries := by simp [start, slist]
  sorted _ := List.Pairwise.nil

theorem Ordered.of_slist (h : s.Ordered usage) (hslist : ∀ path, s'.slist path = s.slist path) :
    s'.Ordered usage where
  entries path e he := h.entries path e (hslist path ▸ he)
  sorted path := hslist path ▸ h.sorted path

theorem Ordered.of_sublist (h : s.Ordered usage) (hslist : ∀ path, (s'.slist path).Sublist (s.slist path)) :
    s'.Ordered usage where
  entries path e he := h.entries path e ((hslist path).subset he)
  sorted path := (h.sorted path).sublist (hslist path)

theorem Ordered.set_remove (h : s.Ordered usage) (e : SetInfo) (hash : HashRef) :
    (s.set_remove e hash).Ordered usage := by
  refine h.of_sublist fun path => ?_
  rw [set_remove_slist]
  split
  · exact remove_sublist _ _ _
  · exact List.Sublist.refl _

theorem Ordered.set_insert (hnumeric : ∀ path, Numeric (usage path).1) (h : s.Ordered usage)
    (he : FitsUsage usage e.setreq) (hash : HashRef) : (s.set_insert e hash).Ordered usage where
  entries path e' he' := by
    rw [set_insert_slist] at he'
    split at he'
    · next hpath =>
      obtain rfl | he' := mem_insert_sorted.mp he'
      · exact ⟨hpath.symm, he⟩
      · exact h.entries path e' he'
    · exact h.entries path e' he'
  sorted path := by
    rw [set_insert_slist]
    split
    · next hpath =>
      subst hpath
      exact sorted_insert_sorted (attr_value_comp_rank (hnumeric _)) ⟨rfl, he⟩ (h.entries _) (h.sorted _)
    · exact h.sorted path

end Ordered

section Step

variable {usage : Usage} {io : Io} {now : UInt64 × UInt64} {persist : Bool} {newset : SetInfo} {s s' : Daemon}

theorem DefsetStep.ordered (hnumeric : ∀ path, Numeric (usage path).1) (h : s.Ordered usage)
    (hb : s.Balanced) (hfiles : HoldNumbers usage s.files) (hfits : FitsUsage usage newset.setreq)
    (hstep : DefsetStep io now.1 persist newset s s') : s'.Ordered usage := by
  cases hstep with
  | first value hnone hpersist hread =>
    have hvalue : IsNumber (usage newset.setreq.path).2 value := by
      cases persist with
      | true => exact hpersist rfl ▸ hfits.number
      | false =>
        have hfile := hread rfl
        rw [hfits.attr, hfits.data_type] at hfile
        exact hfiles _ value hfile
    have h' : ({ s with next_addr := s.next_addr + 1, clock := now.1 } : Daemon).Ordered usage :=
      h.of_slist fun _ => rfl
    have hfits' : FitsUsage usage (s.first_default newset value now.1).setreq := hfits.with_value hvalue
    exact h'.set_insert hnumeric hfits' _
  | replaced d hd hpersist =>
    have h' : ({ s.set_remove d .def_values with clock := now.1 } : Daemon).Ordered usage :=
      (h.set_remove d .def_values).of_slist fun _ => rfl
    obtain ⟨hpath, hfits_d⟩ := h.entries newset.setreq.path d (hb.mem_slist.mpr (Or.inl hd))
    have hfits' : FitsUsage usage (replaced_default d newset now.1).setreq :=
      hfits_d.with_value (hpath ▸ hfits.number)
    exact h'.set_insert hnumeric hfits' _
  | kept => exact h

theorem listed_ordered (hnumeric : ∀ path, Numeric (usage path).1) (h : s.Ordered usage) (skinfo : Nat)
    (now : UInt64) (hfits : FitsUsage usage newset.setreq) : (s.listed skinfo now newset).Ordered usage := by
  have hremove : (s.worker_remove_oldset skinfo newset.setreq.path).Ordered usage := by
    obtain ⟨_, heq⟩ | ⟨oldset, _, heq⟩ := s.worker_remove_oldset_eq skinfo newset.setreq.path
    · rwa [heq]
    · rw [heq]
      exact h.set_remove oldset _
  have h' : ({ s.worker_remove_oldset skinfo newset.setreq.path with clock := now } : Daemon).Ordered usage :=
    hremove.of_slist fun _ => rfl
  exact h'.set_insert (e := { newset with timestamp := now }) hnumeric hfits _

theorem ProcessStep.ordered (hnumeric : ∀ path, Numeric (usage path).1) (h : s.Ordered usage)
    (hb : s.Balanced) (hfiles : HoldNumbers usage s.files) (hfits : FitsUsage usage newset.setreq)
    (hstep : ProcessStep io now newset s s') : s'.Ordered usage := by
  cases hstep with
  | refused hsame => exact h.of_slist hsame.slist_eq
  | applied skinfo sk s₁ top hskinfo hsk hdef htop hsame =>
    have h₁ := DefsetStep.ordered hnumeric h hb hfiles hfits hdef
    have h₂ : (s₁.listed skinfo now.2 newset).Ordered usage := listed_ordered hnumeric h₁ skinfo now.2 hfits
    exact h₂.of_slist hsame.slist_eq

/-- Every step of the store keeps the lists in order, when no default value is read as NaN. -/
theorem StoreStep.ordered {op : Operation} (hnumeric : ∀ path, Numeric (usage path).1) (h : s.Ordered usage)
    (hinv : s.StoreInvariant) (hfiles : HoldNumbers usage s.files) (hfits : Fits usage op)
    (hstep : s.StoreStep op s') : s'.Ordered usage := by
  cases hstep with
  | quiet _ _ hsame => exact h.of_slist hsame.slist_eq
  | set client_socket set io now skinfo sk _ haccepts hprocess =>
    have h' : ({ s with next_addr := s.next_addr + 1 } : Daemon).Ordered usage := h.of_slist fun _ => rfl
    have hset : FitsUsage usage (s.queued_item skinfo set).setreq := hfits
    exact (worker_process_item_step hprocess).ordered hnumeric h' (next_addr_invariant hinv).balanced hfiles hset
  | closed client_socket io order skinfo _ hopen hdestructs => exact h.of_sublist hdestructs.slist_sublist

end Step

end Daemon

end pwrapi.daemon
