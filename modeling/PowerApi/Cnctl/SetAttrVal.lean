import PowerApi.Common.ReadValues

open Strtoul
open pwrapi.permissions (isspace isDigit_not_isspace)

namespace pwrapi.cnctl

/-- `rattr_t`. -/
structure Rattr where
  attr : PwrAttrName
  attr_str : String
  val_str : Option (List Char)
  retcode : Int
  deriving DecidableEq

/-- What `set_attr_val` leaves: the attribute with its return code, what it prints, and the value
with which it called `PWR_ObjAttrSetValue`, if it did. -/
structure SetResult where
  rattr : Rattr
  errors : List String := []
  request : Option (PwrAttrName × TypeUnion) := none
  deriving DecidableEq

/-- The value of the requested attribute, or the message about one that is bad. -/
def convert_val (lib : CLibrary) (rattr : Rattr) (val_str : List Char) : Except String TypeUnion :=
  let overflow := s!"Requested value '{String.ofList val_str}' for {rattr.attr_str} causes overflow"
  let invalid := s!"Requested value '{String.ofList val_str}' for {rattr.attr_str} contains invalid characters"
  match rattr.attr with
  | .CSTATE_LIMIT =>
    let read := strtoul isspace val_str 10
    if read.value = LLONG_MIN ∨ read.value = LLONG_MAX then .error overflow
    else if read.endptr ≠ [] then .error invalid
    else .ok ⟨read.value⟩
  | .FREQ | .FREQ_LIMIT_MAX | .FREQ_LIMIT_MIN =>
    let (value, endptr) := lib.strtod val_str
    if value.feq HUGE_VAL ∨ value.feq MINUS_HUGE_VAL then .error overflow
    else if endptr ≠ [] then .error invalid
    else .ok ⟨value.bits⟩
  | _ => .error s!"Internal Error: Don't know format of value for {rattr.attr_str}"

/-- `set_attr_val`, up to the printing of the result. -/
def set_attr_val (lib : CLibrary) (obj_attr_set_value : PwrAttrName → TypeUnion → Int) (rattr : Rattr) : SetResult :=
  match rattr.val_str with
  | none | some [] =>
    { rattr := { rattr with retcode := PWR_RET_BAD_VALUE }
      errors := [s!"Value parameter required for set command ({rattr.attr_str})"] }
  | some val_str =>
    match convert_val lib rattr val_str with
    | .error error => { rattr := { rattr with retcode := PWR_RET_BAD_VALUE }, errors := [error] }
    | .ok val =>
      let retcode := obj_attr_set_value rattr.attr val
      { rattr := { rattr with retcode }
        errors :=
          if retcode = PWR_RET_SUCCESS then []
          else if retcode = PWR_RET_READ_ONLY then [s!"Attribute {rattr.attr_str} is read-only"]
          else [s!"PWR_ObjAttrSetValue() returned {retcode}"]
        request := some (rattr.attr, val) }

/-- A number is the one that is set if it has 64 bits, and is a bad value otherwise. -/
def CstateExactly (n : ℕ) (result : SetResult) : Prop :=
  if n < 2 ^ 64 then result.request = some (.CSTATE_LIMIT, ⟨UInt64.ofNat n⟩)
  else result.request = none ∧ result.rattr.retcode = PWR_RET_BAD_VALUE

section Numeral

variable (lib : CLibrary) (obj_attr_set_value : PwrAttrName → TypeUnion → Int)
variable {before after : List Char} {rattr : Rattr}

/-- A value that is not bad is requested, and another one is not. -/
theorem set_attr_val_request {val_str : List Char} (hval : rattr.val_str = some val_str) (hne : val_str ≠ []) :
    (set_attr_val lib obj_attr_set_value rattr).request =
        ((convert_val lib rattr val_str).toOption.map fun val => (rattr.attr, val)) ∧
      ((convert_val lib rattr val_str).toOption = none →
        (set_attr_val lib obj_attr_set_value rattr).rattr.retcode = PWR_RET_BAD_VALUE) := by
  obtain ⟨c, tail, rfl⟩ := List.exists_cons_of_ne_nil hne
  simp only [set_attr_val, hval]
  cases convert_val lib rattr (c :: tail) with
  | error error => exact ⟨rfl, fun _ => rfl⟩
  | ok val => exact ⟨rfl, fun h => nomatch h⟩

/-- A number is good if it is taken over and nothing follows it. -/
theorem convert_val_toDigits (hattr : rattr.attr = .CSTATE_LIMIT) (hbefore : ∀ c ∈ before, isspace c = true)
    (hafter : ∀ c ∈ after, isspace c = true) (n : ℕ) :
    (convert_val lib rattr (before ++ (Nat.toDigits 10 n ++ after))).toOption =
      if after = [] then (accepted n).map TypeUnion.mk else none := by
  simp only [convert_val, hattr, strtoul_toDigits hbefore (fun _ => isDigit_not_isspace) (digit_of_spaces hafter)
    (Or.inr rfl), accepted]
  generalize (if 2 ^ 64 ≤ n then ULONG_MAX else UInt64.ofNat n) = val
  by_cases hlimit : val = LLONG_MIN ∨ val = LLONG_MAX
  · simp only [if_pos hlimit, Option.map_none, ite_self]
    rfl
  · by_cases hend : after = []
    · simp only [if_neg hlimit, hend, ne_eq, not_true, if_false, if_true]
      rfl
    · simp only [if_neg hlimit, if_neg hend, if_pos hend, ne_eq]
      rfl

/-- The number that is requested is right where it is read right and nothing follows it. What
follows a number that is too large makes it a bad value. -/
theorem cstate_exactly_iff (hattr : rattr.attr = .CSTATE_LIMIT) {n : ℕ}
    (hval : rattr.val_str = some (before ++ (Nat.toDigits 10 n ++ after)))
    (hbefore : ∀ c ∈ before, isspace c = true) (hafter : ∀ c ∈ after, isspace c = true) :
    CstateExactly n (set_attr_val lib obj_attr_set_value rattr) ↔ if after = [] then ReadRight n else 2 ^ 64 ≤ n := by
  have hne : before ++ (Nat.toDigits 10 n ++ after) ≠ [] := by
    intro h
    exact Nat.toDigits_ne_nil (List.append_eq_nil_iff.mp (List.append_eq_nil_iff.mp h).2).1
  obtain ⟨hrequest, hbad⟩ := set_attr_val_request lib obj_attr_set_value hval hne
  have hconvert := convert_val_toDigits lib hattr hbefore hafter n
  rw [hconvert] at hrequest hbad
  rw [CstateExactly, hrequest, hattr]
  by_cases hend : after = []
  · simp only [if_pos hend] at hbad ⊢
    rw [← accepted_exactly_iff, ReadExactly]
    cases haccepted : accepted n with
    | none =>
      rw [haccepted] at hbad
      split
      · simp
      · exact iff_of_true ⟨rfl, hbad rfl⟩ rfl
    | some val =>
      split
      · simp
      · simp
  · simp only [if_neg hend] at hbad ⊢
    split
    · next hlt => exact iff_of_false (by simp) (Nat.not_le.mpr hlt)
    · next hge => exact iff_of_true ⟨rfl, hbad trivial⟩ (Nat.le_of_not_lt hge)

/-- A decimal number with white space around it is read exactly, or not at all if it is too large,
just if it is not taken for a limit of a signed number and has 64 bits. The C-state of `cnctl` is
besides not followed by white space, unless it is too large. -/
theorem numbers_read_exactly_iff (rattr : Rattr) (tspec : Bool) (n : ℕ) (before after : List Char)
    (hbefore : ∀ c ∈ before, isspace c = true) (hafter : ∀ c ∈ after, isspace c = true)
    (hdup : ∀ buf, lib.g_strdup buf = some buf) (hclock : tspec = true → lib.clock_gettime ≠ none)
    (hattr : rattr.attr = .CSTATE_LIMIT)
    (hval : rattr.val_str = some (before ++ (Nat.toDigits 10 n ++ after))) :
    (ReadExactly n
        (read_val_from_buf lib (before ++ (Nat.toDigits 10 n ++ after)) .TYPE_UINT64 tspec).uint64 ↔ ReadRight n) ∧
      (CstateExactly n (set_attr_val lib obj_attr_set_value rattr) ↔
        if after = [] then ReadRight n else 2 ^ 64 ≤ n) := by
  refine ⟨?_, cstate_exactly_iff lib obj_attr_set_value hattr hval hbefore hafter⟩
  rw [read_val_from_buf_toDigits hbefore hafter hdup hclock, accepted_exactly_iff]

end Numeral

/-- A library whose clock stands still. -/
def still_library : CLibrary where
  clock_gettime := some ⟨0, 0⟩
  g_strdup buf := some buf
  strtod buf := (⟨0⟩, buf)

/-- An attribute whose value is a C-state. -/
def cstate_rattr (val_str : String) : Rattr :=
  { attr := .CSTATE_LIMIT, attr_str := "PWR_ATTR_CSTATE_LIMIT", val_str := some val_str.toList
    retcode := PWR_RET_SUCCESS }

/-- The number 9223372036854775809 is above the limits. -/
theorem numbers_read_exactly_above_limits :
    (read_val_from_buf still_library " 9223372036854775809\n".toList .TYPE_UINT64 true).uint64 =
        some 9223372036854775809 ∧
      CstateExactly 9223372036854775809
        (set_attr_val still_library (fun _ _ => PWR_RET_SUCCESS) (cstate_rattr " 9223372036854775809")) := by
  have hread := (numbers_read_exactly_iff still_library (fun _ _ => PWR_RET_SUCCESS)
    (cstate_rattr " 9223372036854775809\n") true 9223372036854775809 [' '] ['\n'] (List.forall_mem_singleton.mpr rfl)
    (List.forall_mem_singleton.mpr rfl) (fun _ => rfl) (fun _ h => nomatch h) rfl (by decide)).1.mpr (by decide)
  have hset := (numbers_read_exactly_iff still_library (fun _ _ => PWR_RET_SUCCESS)
    (cstate_rattr " 9223372036854775809") true 9223372036854775809 [' '] [] (List.forall_mem_singleton.mpr rfl)
    (List.forall_mem_nil _) (fun _ => rfl) (fun _ h => nomatch h) rfl (by decide)).2.mpr (by decide)
  exact ⟨hread, hset⟩

/-- A number of 65 bits is read as the greatest one of 64. -/
theorem number_read_wrong :
    ¬∀ (lib : CLibrary) (n : ℕ) (before after : List Char), (∀ c ∈ before, isspace c = true) →
      (∀ c ∈ after, isspace c = true) → (∀ buf, lib.g_strdup buf = some buf) →
        ReadExactly n
          (read_val_from_buf lib (before ++ (Nat.toDigits 10 n ++ after)) .TYPE_UINT64 false).uint64 := by
  intro hclaim
  have hnone : ∀ c ∈ ([] : List Char), isspace c = true := by simp
  have hread := hclaim still_library (2 ^ 64) [] [] hnone hnone fun _ => rfl
  rw [read_val_from_buf_toDigits hnone hnone (fun _ => rfl) (by simp), accepted_exactly_iff] at hread
  exact absurd hread.1 (by decide)

end pwrapi.cnctl
