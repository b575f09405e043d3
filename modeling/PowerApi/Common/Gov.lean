import Mathlib.Algebra.Group.Nat.Defs
import Mathlib.Tactic.Common

namespace pwrapi

/-- `PWR_AttrGov`, with one name for all the numbers that stand for no governor. -/
inductive PwrAttrGov where
  | LINUX_ONDEMAND | LINUX_PERFORMANCE | LINUX_CONSERVATIVE | LINUX_POWERSAVE | LINUX_USERSPACE
  | INVALID
  deriving DecidableEq, Repr

/-- The enumerator converted to `uint64_t`; `PWR_GOV_INVALID` is -1. -/
def PwrAttrGov.ivalue : PwrAttrGov → UInt64
  | LINUX_ONDEMAND => 0
  | LINUX_PERFORMANCE => 1
  | LINUX_CONSERVATIVE => 2
  | LINUX_POWERSAVE => 3
  | LINUX_USERSPACE => 4
  | INVALID => 0xFFFFFFFFFFFFFFFF

/-- A `uint64_t` passed as a governor: only its low 32 bits survive. -/
def PwrAttrGov.of_ivalue (v : UInt64) : PwrAttrGov :=
  match v.toNat % 2 ^ 32 with
  | 0 => LINUX_ONDEMAND
  | 1 => LINUX_PERFORMANCE
  | 2 => LINUX_CONSERVATIVE
  | 3 => LINUX_POWERSAVE
  | 4 => LINUX_USERSPACE
  | _ => INVALID

def pwr_string_to_gov (str : String) : PwrAttrGov :=
  if str = "ondemand" then .LINUX_ONDEMAND
  else if str = "performance" then .LINUX_PERFORMANCE
  else if str = "conservative" then .LINUX_CONSERVATIVE
  else if str = "powersave" then .LINUX_POWERSAVE
  else if str = "userspace" then .LINUX_USERSPACE
  else .INVALID

def pwr_gov_to_string (gov : PwrAttrGov) : String :=
  match gov with
  | .LINUX_ONDEMAND => "ondemand"
  | .LINUX_PERFORMANCE => "performance"
  | .LINUX_CONSERVATIVE => "conservative"
  | .LINUX_POWERSAVE => "powersave"
  | .LINUX_USERSPACE => "userspace"
  | .INVALID => "INVALID"

/-- The name of a governor is mapped back to that governor. -/
@[simp] theorem pwr_string_to_gov_to_string (gov : PwrAttrGov) :
    pwr_string_to_gov (pwr_gov_to_string gov) = gov := by
  cases gov <;> decide

/-- The number is mapped to a governor name and back to the same number. -/
def GovMapsBack (v : UInt64) : Prop :=
  (pwr_string_to_gov (pwr_gov_to_string (.of_ivalue v))).ivalue = v

instance (v : UInt64) : Decidable (GovMapsBack v) := inferInstanceAs (Decidable (_ = _))

/-- Every enumerator's number is mapped back, also the one for no governor. -/
theorem PwrAttrGov.maps_back (gov : PwrAttrGov) : GovMapsBack gov.ivalue := by
  cases gov <;> decide

end pwrapi
