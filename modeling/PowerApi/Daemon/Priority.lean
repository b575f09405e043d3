import PowerApi.Daemon.Governor

open SortedList

namespace pwrapi.daemon

/-- Two records that ask for different governors, neither of them userspace: the
newer one is to have the higher priority. -/
def Rivals (a b : SetInfo) : Prop :=
  a.setreq.value.ivalue ≠ b.setreq.value.ivalue ∧ ¬IsUserspace a ∧ ¬IsUserspace b

instance (a b : SetInfo) : Decidable (Rivals a b) := inferInstanceAs (Decidable (_ ∧ _ ∧ _))

/-- Rivals are never of one age, and a record with the governor of one of two
rivals is on the same side of the other rival in age. -/
structure AgesAgree (a b c : SetInfo) : Prop where
  distinct : Rivals a b → a.timestamp ≠ b.timestamp
  first : Rivals a c → a.setreq.value.ivalue = b.setreq.value.ivalue →
    c.timestamp < b.timestamp → c.timestamp < a.timestamp
  last : Rivals a c → b.setreq.value.ivalue = c.setreq.value.ivalue →
    b.timestamp < a.timestamp → c.timestamp < a.timestamp

section Gov

variable {a b c : SetInfo}

theorem gov_compare_nonpos_iff (hattr : a.setreq.attr = .GOV) :
    attr_value_comp a b ≤ 0 ↔ a.setreq.value.ivalue = b.setreq.value.ivalue ∨ IsUserspace a ∨
      (¬IsUserspace b ∧ b.timestamp < a.timestamp) := by
  rw [attr_value_comp_gov hattr]
  split
  · next heq => simp [heq]
  · next hne =>
    split
    · next ha => simp [ha]
    · next ha =>
      split
      · next hb => simp [hne, ha, hb]
      · next hb =>
        split
        · next hnew => simp [hnew, hb]
        · next hnew => simp [hne, ha, hnew]

/-- Between rivals the newer one has priority. -/
theorem Rivals.nonpos_iff (h : Rivals a b) (hattr : a.setreq.attr = .GOV) :
    attr_value_comp a b ≤ 0 ↔ b.timestamp < a.timestamp := by
  obtain ⟨hne, ha, hb⟩ := h
  simp [gov_compare_nonpos_iff hattr, hne, ha, hb]

theorem Rivals.symm (h : Rivals a b) : Rivals b a := ⟨h.1.symm, h.2.2, h.2.1⟩

theorem Rivals.sign_eq (h : Rivals a b) (hattr : a.setreq.attr = .GOV) :
    (attr_value_comp a b).sign = if b.timestamp < a.timestamp then -1 else 1 := by
  obtain ⟨hne, ha, hb⟩ := h
  rw [attr_value_comp_gov hattr, if_neg hne, if_neg ha, if_neg hb]
  split <;> rfl

/-- The governor comparison goes the other way for the records swapped, save for
rivals of one age. -/
theorem gov_compare_opposite_iff (ha : a.setreq.attr = .GOV) (hb : b.setreq.attr = .GOV) :
    (attr_value_comp a b).sign = -(attr_value_comp b a).sign ↔ (Rivals a b → a.timestamp ≠ b.timestamp) := by
  by_cases hrivals : Rivals a b
  · rw [hrivals.sign_eq ha, hrivals.symm.sign_eq hb]
    by_cases heq : a.timestamp = b.timestamp
    · simp [heq, hrivals]
    · obtain hlt | hgt := UInt64.lt_or_lt_of_ne heq
      · simp [hlt, heq, UInt64.lt_asymm hlt]
      · simp [hgt, heq, UInt64.lt_asymm hgt]
  · simp only [hrivals, false_imp_iff, iff_true]
    rw [attr_value_comp_gov ha, attr_value_comp_gov hb]
    by_cases heq : a.setreq.value.ivalue = b.setreq.value.ivalue
    · simp [heq]
    · by_cases hua : IsUserspace a
      · have hub : ¬IsUserspace b := fun hub => heq (hua.trans hub.symm)
        simp [heq, Ne.symm heq, hua, hub]
      · have hub : IsUserspace b := by
          by_contra hub
          exact hrivals ⟨heq, hua, hub⟩
        simp [heq, Ne.symm heq, hua, hub]

/-- The governor comparison is transitive where the ages of rivals agree. -/
theorem AgesAgree.trans (h : AgesAgree a b c) (ha : a.setreq.attr = .GOV) (hb : b.setreq.attr = .GOV)
    (hab : attr_value_comp a b ≤ 0) (hbc : attr_value_comp b c ≤ 0) : attr_value_comp a c ≤ 0 := by
  rw [gov_compare_nonpos_iff ha] at hab
  rw [gov_compare_nonpos_iff hb] at hbc
  by_cases hrivals : Rivals a c
  · have hub : ¬IsUserspace b := by
      intro hub
      obtain heq | hua | hnew := hab
      · exact hrivals.2.1 (heq.trans hub)
      · exact hrivals.2.1 hua
      · exact hnew.1 hub
    rw [hrivals.nonpos_iff ha]
    obtain heq | hua | ⟨_, hab⟩ := hab
    · obtain heq' | hub' | ⟨_, hbc⟩ := hbc
      · exact absurd (heq.trans heq') hrivals.1
      · exact absurd hub' hub
      · exact h.first hrivals heq hbc
    · exact absurd hua hrivals.2.1
    · obtain heq' | hub' | ⟨_, hbc⟩ := hbc
      · exact h.last hrivals heq' hab
      · exact absurd hub' hub
      · exact UInt64.lt_trans hbc hab
  · rw [gov_compare_nonpos_iff ha]
    by_cases heq : a.setreq.value.ivalue = c.setreq.value.ivalue
    · exact Or.inl heq
    · refine Or.inr (Or.inl ?_)
      by_contra hua
      have huc : IsUserspace c := by
        by_contra huc
        exact hrivals ⟨heq, hua, huc⟩
      have hub : IsUserspace b := by
        obtain heq' | hub | hnew := hbc
        · exact heq'.trans huc
        · exact hub
        · exact absurd huc hnew.1
      obtain heq' | hua' | hnew := hab
      · exact hua (heq'.trans hub)
      · exact hua hua'
      · exact hnew.1 hub

/-- The comparison of three governor records is consistent exactly where the
ages of rivals agree. -/
theorem gov_consistent_iff (ha : a.setreq.attr = .GOV) (hb : b.setreq.attr = .GOV) :
    Consistent attr_value_comp a b c ↔ AgesAgree a b c := by
  constructor
  · rintro ⟨hopposite, htrans, _⟩
    refine ⟨(gov_compare_opposite_iff ha hb).mp hopposite, ?_, ?_⟩
    · intro hrivals heq hlt
      have hub : ¬IsUserspace b := fun hub => hrivals.2.1 (heq.trans hub)
      rw [← hrivals.nonpos_iff ha]
      exact htrans ((gov_compare_nonpos_iff ha).mpr (Or.inl heq))
        ((gov_compare_nonpos_iff hb).mpr (Or.inr (Or.inr ⟨hrivals.2.2, hlt⟩)))
    · intro hrivals heq hlt
      have hub : ¬IsUserspace b := fun hub => hrivals.2.2 (heq.symm.trans hub)
      rw [← hrivals.nonpos_iff ha]
      exact htrans ((gov_compare_nonpos_iff ha).mpr (Or.inr (Or.inr ⟨hub, hlt⟩)))
        ((gov_compare_nonpos_iff hb).mpr (Or.inl heq))
  · intro hages
    refine ⟨(gov_compare_opposite_iff ha hb).mpr hages.distinct, hages.trans ha hb, ?_⟩
    rw [gov_compare_zero ha, gov_compare_zero hb, gov_compare_zero ha]
    exact Eq.trans

end Gov

section Comparison

variable {a b c : SetInfo}

/-- An attribute that is not listed, or a type that is not a number, makes all records equal. -/
theorem attr_value_comp_unlisted (hgov : a.setreq.attr ≠ .GOV) (hnumeric : ¬Numeric a.setreq.attr) :
    attr_value_comp a b = 0 := by
  unfold attr_value_comp
  cases hattr : a.setreq.attr <;> simp_all [Numeric]

/-- The comparison function orders three records of one attribute and one data
type consistently exactly where they are not governor records with ages that
disagree. -/
theorem attr_value_comp_consistent_iff (a b c : SetInfo)
    (hattr_b : b.setreq.attr = a.setreq.attr) (hattr_c : c.setreq.attr = a.setreq.attr)
    (htype_b : b.setreq.data_type = a.setreq.data_type) (htype_c : c.setreq.data_type = a.setreq.data_type)
    (hnum_a : IsNumber a.setreq.data_type a.setreq.value) (hnum_b : IsNumber a.setreq.data_type b.setreq.value)
    (hnum_c : IsNumber a.setreq.data_type c.setreq.value) :
    Consistent attr_value_comp a b c ↔ (a.setreq.attr = .GOV → AgesAgree a b c) := by
  by_cases hgov : a.setreq.attr = .GOV
  · simp only [hgov, true_imp_iff]
    exact gov_consistent_iff hgov (hattr_b.trans hgov)
  · simp only [hgov, false_imp_iff, iff_true]
    by_cases hnumeric : Numeric a.setreq.attr
    · exact (attr_value_comp_iff_rank a.setreq.data_type hnumeric).consistent ⟨rfl, rfl, hnum_a⟩
        ⟨hattr_b, htype_b, hnum_b⟩ ⟨hattr_c, htype_c, hnum_c⟩
    · have hzero : ∀ {x y : SetInfo}, x.setreq.attr = a.setreq.attr → attr_value_comp x y = 0 :=
        fun hx => attr_value_comp_unlisted (hx ▸ hgov) (hx ▸ hnumeric)
      refine ⟨?_, fun _ _ => (hzero rfl).le, fun _ _ => hzero rfl⟩
      rw [hzero rfl, hzero hattr_b]
      rfl

/-- A record that asks for a governor at a time. -/
def gov_record (gov : PwrAttrGov) (timestamp : UInt64) : SetInfo where
  addr := timestamp.toNat
  setreq := { object := 0, attr := .GOV, data_type := .UINT64, metadata := 0, value := ⟨gov.ivalue⟩, path := "gov" }
  skinfo := none
  timestamp

theorem attr_value_comp_consistent_iff_aged :
    Consistent attr_value_comp (gov_record .LINUX_ONDEMAND 4) (gov_record .LINUX_POWERSAVE 3)
      (gov_record .LINUX_PERFORMANCE 2) := by
  refine (attr_value_comp_consistent_iff (gov_record .LINUX_ONDEMAND 4) (gov_record .LINUX_POWERSAVE 3)
    (gov_record .LINUX_PERFORMANCE 2) rfl rfl rfl rfl (by decide) (by decide) (by decide)).mpr fun _ => ?_
  exact ⟨fun _ => by decide, fun _ => by decide, fun _ => by decide⟩

/-- The oldest record ties with the newest, which goes before the third record,
although the third is newer than the oldest. -/
theorem attr_value_comp_not_transitive :
    ¬∀ a b c : SetInfo, b.setreq.attr = a.setreq.attr → c.setreq.attr = a.setreq.attr →
      b.setreq.data_type = a.setreq.data_type → c.setreq.data_type = a.setreq.data_type →
      IsNumber a.setreq.data_type a.setreq.value → IsNumber a.setreq.data_type b.setreq.value →
      IsNumber a.setreq.data_type c.setreq.value → Consistent attr_value_comp a b c := by
  intro hall
  have htrans := (hall (gov_record .LINUX_ONDEMAND 1) (gov_record .LINUX_ONDEMAND 3)
    (gov_record .LINUX_PERFORMANCE 2) rfl rfl rfl rfl (by decide) (by decide) (by decide)).trans
  exact absurd (htrans (by decide) (by decide)) (by decide)

end Comparison

end pwrapi.daemon
