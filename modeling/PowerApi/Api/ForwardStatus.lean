import PowerApi.Api.Forward

namespace pwrapi

/-- The statuses of the children of `forward_attr_set_value`, in order. -/
def statuses (attr : PwrAttrName) (op : Nat → Int) (children : List ObjTree) : List Int :=
  children.map fun child => (obj_set_value attr op child).1

/-- A status that reports an error of a child that implements the attribute. -/
def IsError (status : Int) : Prop := status < PWR_RET_SUCCESS ∧ status ≠ PWR_RET_NOT_IMPLEMENTED

instance (status : Int) : Decidable (IsError status) := inferInstanceAs (Decidable (_ ∧ _))

/-- What is to come of the statuses of the children, whatever their order. -/
structure CombinesTo (statuses : List Int) (retval : Int) : Prop where
  not_implemented : (∀ s ∈ statuses, s = PWR_RET_NOT_IMPLEMENTED) → retval = PWR_RET_NOT_IMPLEMENTED
  success : (∃ s ∈ statuses, s ≠ PWR_RET_NOT_IMPLEMENTED) → (∀ s ∈ statuses, ¬IsError s) → retval = PWR_RET_SUCCESS
  single : ∀ e ∈ statuses, IsError e → (∀ s ∈ statuses, IsError s → s = e) → retval = e
  different : ∀ d ∈ statuses, ∀ e ∈ statuses, IsError d → IsError e → d ≠ e → retval = PWR_RET_FAILURE

/-- Every warning comes after an error. -/
def WarningsAfterError (statuses : List Int) : Prop :=
  ∀ before w after, statuses = before ++ w :: after → PWR_RET_SUCCESS < w → ∃ e ∈ before, IsError e

/-- The errors give the generic one: it is among them, or two of them are different. -/
def GenericError (statuses : List Int) : Prop :=
  PWR_RET_FAILURE ∈ statuses ∨ ∃ d ∈ statuses, ∃ e ∈ statuses, IsError d ∧ IsError e ∧ d ≠ e

/-- The loop over the children, from their statuses. -/
def accumulate_all (retval : Int) (implemented : Nat) (statuses : List Int) : Int × Nat :=
  statuses.foldl (fun s status => accumulate s.1 s.2 status) (retval, implemented)

/-- There is an error other than the given status. -/
def OtherError (retval : Int) (statuses : List Int) : Prop := ∃ e ∈ statuses, IsError e ∧ e ≠ retval

instance (retval : Int) (statuses : List Int) : Decidable (OtherError retval statuses) :=
  inferInstanceAs (Decidable (∃ e ∈ statuses, _))

section Loop

variable {attr : PwrAttrName} {op : Nat → Int} {ss : List Int} {retval s : Int} {implemented : Nat}

theorem forward_loop_accumulate (children : List ObjTree) (retval : Int) (implemented : Nat) :
    (forward_loop attr op retval implemented children).1 =
      let r := accumulate_all retval implemented (statuses attr op children)
      if r.2 = 0 then PWR_RET_NOT_IMPLEMENTED else r.1 := by
  induction children generalizing retval implemented with
  | nil => rfl
  | cons child rest ih =>
    rw [forward_loop]
    exact ih _ _

theorem accumulate_all_cons (retval : Int) (implemented : Nat) (s : Int) (ss : List Int) :
    accumulate_all retval implemented (s :: ss) =
      accumulate_all (accumulate retval implemented s).1 (accumulate retval implemented s).2 ss := rfl

/-- The children that implement the attribute are counted. -/
theorem accumulate_all_eq_zero : (accumulate_all retval implemented ss).2 = 0 ↔
    implemented = 0 ∧ ∀ s ∈ ss, s = PWR_RET_NOT_IMPLEMENTED := by
  induction ss generalizing retval implemented with
  | nil => simp [accumulate_all]
  | cons s rest ih =>
    rw [accumulate_all_cons, ih, List.forall_mem_cons]
    by_cases hs : s = PWR_RET_NOT_IMPLEMENTED
    · simp [accumulate, hs]
    · simp [accumulate, hs]

theorem otherError_cons : OtherError retval (s :: ss) ↔ (IsError s ∧ s ≠ retval) ∨ OtherError retval ss := by
  simp [OtherError]

/-- Once there is something to return, an error that is different makes it the generic one,
and nothing else changes it. -/
theorem accumulate_all_of_ne (hne : retval ≠ PWR_RET_SUCCESS) (implemented : Nat) (ss : List Int) :
    (accumulate_all retval implemented ss).1 = if OtherError retval ss then PWR_RET_FAILURE else retval := by
  induction ss generalizing retval implemented with
  | nil =>
    rw [if_neg (by simp [OtherError])]
    rfl
  | cons s rest ih =>
    rw [accumulate_all_cons]
    by_cases hs : IsError s ∧ s ≠ retval
    · have hstep : (accumulate retval implemented s).1 = PWR_RET_FAILURE := by
        simp [accumulate, hs.1.2, hne, hs.1.1, hs.2]
      rw [hstep, ih (by decide), if_pos (otherError_cons.mpr (Or.inl hs)), ite_self]
    · have hstep : (accumulate retval implemented s).1 = retval := by
        by_cases hnone : s = PWR_RET_NOT_IMPLEMENTED
        · rw [hnone, accumulate_not_implemented]
        · have hsame : ¬(s ≠ retval ∧ s < PWR_RET_SUCCESS) := fun h => hs ⟨⟨h.2, hnone⟩, h.1⟩
          simp only [accumulate, hnone, hne, hsame, if_false]
      rw [hstep, ih hne]
      simp only [otherError_cons, hs, false_or]

/-- The first status that says something decides what later errors are compared with. -/
theorem accumulate_all_success (implemented : Nat) (ss : List Int) :
    (accumulate_all PWR_RET_SUCCESS implemented ss).1 =
      match ss.find? fun s => decide (s ≠ PWR_RET_NOT_IMPLEMENTED ∧ s ≠ PWR_RET_SUCCESS) with
      | none => PWR_RET_SUCCESS
      | some x => if OtherError x ss then PWR_RET_FAILURE else x := by
  induction ss generalizing implemented with
  | nil => rfl
  | cons s rest ih =>
    rw [accumulate_all_cons, List.find?_cons]
    by_cases hs : s ≠ PWR_RET_NOT_IMPLEMENTED ∧ s ≠ PWR_RET_SUCCESS
    · have hstep : (accumulate PWR_RET_SUCCESS implemented s).1 = s := by simp [accumulate, hs.1]
      simp only [hs, decide_true, hstep, accumulate_all_of_ne hs.2, otherError_cons, ne_eq, not_true, and_false,
        false_or, not_false_eq_true, and_self]
    · have hnone : ¬IsError s := fun h => hs ⟨h.2, Int.ne_of_lt h.1⟩
      have hstep : (accumulate PWR_RET_SUCCESS implemented s).1 = PWR_RET_SUCCESS := by
        unfold accumulate
        grind
      rw [hstep, ih]
      simp only [hs, decide_false, otherError_cons, hnone, false_and, false_or]

end Loop

section Law

variable {ss : List Int} {x retval : Int}

/-- What the statuses combine to is determined. -/
theorem CombinesTo.unique {r r' : Int} (h : CombinesTo ss r) (h' : CombinesTo ss r') : r = r' := by
  by_cases hnone : ∀ s ∈ ss, s = PWR_RET_NOT_IMPLEMENTED
  · rw [h.not_implemented hnone, h'.not_implemented hnone]
  · push Not at hnone
    by_cases herror : ∃ e ∈ ss, IsError e
    · obtain ⟨e, he, herr⟩ := herror
      by_cases hsame : ∀ s ∈ ss, IsError s → s = e
      · rw [h.single e he herr hsame, h'.single e he herr hsame]
      · push Not at hsame
        obtain ⟨d, hd, hderr, hne⟩ := hsame
        rw [h.different d hd e he hderr herr hne, h'.different d hd e he hderr herr hne]
    · push Not at herror
      rw [h.success hnone herror, h'.success hnone herror]

/-- An error that is returned unless there is another one. -/
theorem combinesTo_of_error (hx : x ∈ ss) (herror : IsError x) :
    CombinesTo ss (if OtherError x ss then PWR_RET_FAILURE else x) := by
  refine ⟨fun hnone => absurd (hnone x hx) herror.2, fun _ hno => absurd herror (hno x hx), ?_, ?_⟩
  · intro e he herr hsame
    have hxe := hsame x hx herror
    have hno : ¬OtherError x ss := fun ⟨d, hd, hderr, hne⟩ => hne ((hsame d hd hderr).trans hxe.symm)
    rw [if_neg hno, hxe]
  · intro d hd e he hderr herr hne
    have hother : OtherError x ss := by
      by_cases hdx : d = x
      · exact ⟨e, he, herr, fun hex => hne (hdx.trans hex.symm)⟩
      · exact ⟨d, hd, hderr, hdx⟩
    rw [if_pos hother]

/-- The errors combine to the generic one. -/
theorem combinesTo_failure_iff (herror : ∃ e ∈ ss, IsError e) :
    CombinesTo ss PWR_RET_FAILURE ↔ GenericError ss := by
  obtain ⟨e, he, herr⟩ := herror
  have hlaw := combinesTo_of_error he herr
  constructor
  · intro h
    have heq := h.unique hlaw
    split_ifs at heq with hother
    · obtain ⟨d, hd, hderr, hne⟩ := hother
      exact Or.inr ⟨d, hd, e, he, hderr, herr, hne⟩
    · exact Or.inl (heq ▸ he)
  · rintro (hfailure | ⟨d, hd, e', he', hderr, herr', hne⟩)
    · have hfail := combinesTo_of_error hfailure (by decide)
      rwa [ite_self] at hfail
    · have hvalue := hlaw.different d hd e' he' hderr herr' hne
      rwa [hvalue] at hlaw

theorem GenericError.error (h : GenericError ss) : ∃ e ∈ ss, IsError e := by
  rcases h with hfailure | ⟨d, hd, _, _, herror, _⟩
  · exact ⟨PWR_RET_FAILURE, hfailure, by decide⟩
  · exact ⟨d, hd, herror⟩

/-- What comes before the first status that says something is no error and no warning. -/
theorem says_nothing {s : Int} (h : ¬(s ≠ PWR_RET_NOT_IMPLEMENTED ∧ s ≠ PWR_RET_SUCCESS)) :
    ¬IsError s ∧ ¬PWR_RET_SUCCESS < s := by
  have hs : s = PWR_RET_NOT_IMPLEMENTED ∨ s = PWR_RET_SUCCESS := by tauto
  rcases hs with rfl | rfl
  · decide
  · decide

theorem warningsAfterError_of_error {before after : List Int} (hbefore : ∀ s ∈ before, ¬PWR_RET_SUCCESS < s)
    (herror : IsError x) : WarningsAfterError (before ++ x :: after) := by
  intro b w a hsplit hw
  refine ⟨x, ?_, herror⟩
  obtain ⟨c, rfl, hrest⟩ | ⟨c, rfl, hrest⟩ := List.append_eq_append_iff.mp hsplit
  · cases c with
    | nil =>
      obtain ⟨rfl, _⟩ := List.cons.inj hrest
      exact absurd herror.1 (Int.not_lt.mpr (Int.le_of_lt hw))
    | cons y c =>
      obtain ⟨rfl, _⟩ := List.cons.inj hrest
      simp
  · cases c with
    | nil =>
      obtain ⟨rfl, _⟩ := List.cons.inj hrest
      exact absurd herror.1 (Int.not_lt.mpr (Int.le_of_lt hw))
    | cons y c =>
      obtain ⟨rfl, _⟩ := List.cons.inj hrest
      exact absurd hw (hbefore w (by simp))

/-- The loop combines the statuses as it should exactly if no warning comes before the first
error, or the errors give the generic one anyway. -/
theorem accumulate_all_combinesTo_iff (ss : List Int) :
    (CombinesTo ss (let r := accumulate_all PWR_RET_SUCCESS 0 ss
      if r.2 = 0 then PWR_RET_NOT_IMPLEMENTED else r.1)) ↔ WarningsAfterError ss ∨ GenericError ss := by
  dsimp only
  by_cases hnone : ∀ s ∈ ss, s = PWR_RET_NOT_IMPLEMENTED
  · rw [if_pos (accumulate_all_eq_zero.mpr ⟨rfl, hnone⟩)]
    have hquiet : ∀ s ∈ ss, ¬IsError s := fun s hs herror => herror.2 (hnone s hs)
    refine iff_of_true ⟨fun _ => rfl, fun ⟨s, hs, hne⟩ _ => absurd (hnone s hs) hne,
      fun e he herror => absurd herror (hquiet e he), fun d hd _ _ herror => absurd herror (hquiet d hd)⟩ (Or.inl ?_)
    rintro before w after rfl hw
    exact absurd (hnone w (by simp)) (by rintro rfl; exact absurd hw (by decide))
  rw [if_neg fun hzero => hnone (accumulate_all_eq_zero.mp hzero).2, accumulate_all_success]
  cases hfind : ss.find? fun s => decide (s ≠ PWR_RET_NOT_IMPLEMENTED ∧ s ≠ PWR_RET_SUCCESS) with
  | none =>
    have hquiet : ∀ s ∈ ss, ¬IsError s ∧ ¬PWR_RET_SUCCESS < s := fun s hs =>
      says_nothing (by simpa only [decide_eq_true_eq] using List.find?_eq_none.mp hfind s hs)
    refine iff_of_true ⟨fun h => absurd h hnone, fun _ _ => rfl, fun e he herror => absurd herror (hquiet e he).1,
      fun d hd _ _ herror => absurd herror (hquiet d hd).1⟩ (Or.inl ?_)
    rintro before w after rfl hw
    exact absurd hw (hquiet w (by simp)).2
  | some x =>
    obtain ⟨hx, before, after, rfl, hbefore⟩ := List.find?_eq_some_iff_append.mp hfind
    have hquiet : ∀ s ∈ before, ¬IsError s ∧ ¬PWR_RET_SUCCESS < s := fun s hs =>
      says_nothing (by simpa only [Bool.not_eq_true', decide_eq_false_iff_not] using hbefore s hs)
    obtain ⟨hximpl, hxne⟩ := of_decide_eq_true hx
    dsimp only
    rcases Int.lt_or_gt_of_ne hxne with hneg | hpos
    · have herror : IsError x := ⟨hneg, hximpl⟩
      exact iff_of_true (combinesTo_of_error (by simp) herror)
        (Or.inl (warningsAfterError_of_error (fun s hs => (hquiet s hs).2) herror))
    · -- the warning is kept as if it were the status to return
      have hlate : ¬WarningsAfterError (before ++ x :: after) := fun h => by
        obtain ⟨e, he, herror⟩ := h before x after rfl hpos
        exact (hquiet e he).1 herror
      rw [or_iff_right hlate]
      by_cases herror : ∃ e ∈ before ++ x :: after, IsError e
      · have hother : OtherError x (before ++ x :: after) := by
          obtain ⟨e, he, herr⟩ := herror
          exact ⟨e, he, herr, fun heq => absurd herr.1 (heq ▸ Int.not_lt.mpr (Int.le_of_lt hpos))⟩
        rw [if_pos hother, combinesTo_failure_iff herror]
      · have hno : ¬OtherError x (before ++ x :: after) := fun ⟨e, he, herr, _⟩ => herror ⟨e, he, herr⟩
        rw [if_neg hno]
        refine iff_of_false (fun h => hxne (h.success ⟨x, by simp, hximpl⟩ ?_)) fun h => herror h.error
        exact fun s hs herr => herror ⟨s, hs, herr⟩

end Law

/-- `forward_attr_set_value` combines the statuses of any children as it should exactly if
none of them warns before the first error, or the errors give the generic one anyway. -/
theorem forward_attr_set_value_combinesTo_iff (attr : PwrAttrName) (op : Nat → Int) (children : List ObjTree) :
    CombinesTo (statuses attr op children) (forward_attr_set_value attr op children).1 ↔
      WarningsAfterError (statuses attr op children) ∨ GenericError (statuses attr op children) := by
  rw [forward_attr_set_value, forward_loop_accumulate]
  exact accumulate_all_combinesTo_iff _

/-- A warning before an error that is not the generic one: the error is lost in one order of
the two children and returned in the other. -/
theorem warning_hides_error :
    let op := fun id => if id = 1 then PWR_RET_WARN_NO_CHILDREN else PWR_RET_OP_NO_PERM
    let warns := ObjTree.obj .socket 1 []
    let fails := ObjTree.obj .socket 2 []
    (forward_attr_set_value .POWER_LIMIT_MAX op [warns, fails]).1 = PWR_RET_FAILURE ∧
      (forward_attr_set_value .POWER_LIMIT_MAX op [fails, warns]).1 = PWR_RET_OP_NO_PERM ∧
      ¬CombinesTo (statuses .POWER_LIMIT_MAX op [warns, fails])
        (forward_attr_set_value .POWER_LIMIT_MAX op [warns, fails]).1 := by
  refine ⟨by decide, by decide, fun h => ?_⟩
  have herror := h.single PWR_RET_OP_NO_PERM (by decide) (by decide) (by decide)
  exact absurd herror (by decide)

end pwrapi
