import PowerApi.Types
import PowerApi.Common.Gov

namespace pwrapi.daemon

/-- What a control file path leads to: a file with the text of a number, given as what
    it is read as in its format, a file holding one line of text, a directory with
    the `disable` flags of the C-states `state0`, `state1` and so on, or nothing. -/
inductive ControlFile where
  | uint64 (value : UInt64)
  | double (value : Binary64)
  | line (text : String)
  | cstates (disable : List UInt64)
  | absent
  deriving DecidableEq, Repr

def file_read_uint64 : ControlFile → Option UInt64
  | .uint64 value => some value
  | _ => none

def file_read_double : ControlFile → Option Binary64
  | .double value => some value
  | _ => none

def file_read_string : ControlFile → Option String
  | .line text => some text
  | _ => none

/-- Opening for writing creates a missing file and fails on a directory. -/
def ControlFile.overwrite (file content : ControlFile) : Option ControlFile :=
  match file with
  | .cstates _ => none
  | _ => some content

def file_write_uint64 (file : ControlFile) (value : UInt64) : Option ControlFile :=
  file.overwrite (.uint64 value)

def file_write_double (file : ControlFile) (value : Binary64) : Option ControlFile :=
  file.overwrite (.double value.six_decimals)

def file_write_string (file : ControlFile) (value : String) : Option ControlFile :=
  file.overwrite (.line value)

/-- The C-state flags under the path; a path that cannot be opened as a directory has none. -/
def ControlFile.flags : ControlFile → List UInt64
  | .cstates disable => disable
  | _ => []

def get_cstates_count (file : ControlFile) : Nat := file.flags.length

/-- The loop of `read_cstate_limit` over the flags of the states `i`, `i + 1`
    and so on: the value of `i` when it ends. -/
def read_cstate_limit_loop : Nat → List UInt64 → Nat
  | i, [] => i
  | i, disable_value :: rest => if 0 < disable_value then i else read_cstate_limit_loop (i + 1) rest

def read_cstate_limit (file : ControlFile) : Option UInt64 :=
  some (.ofNat (read_cstate_limit_loop 1 file.flags.tail - 1))

def read_governor (file : ControlFile) : Option UInt64 :=
  (file_read_string file).map fun buf => (pwr_string_to_gov buf).ivalue

def read_value_by_type (file : ControlFile) (data_type : PwrAttrDataType) : Option TypeUnion :=
  match data_type with
  | .UINT64 => (file_read_uint64 file).map fun ivalue => ⟨ivalue⟩
  | .DOUBLE => (file_read_double file).map fun fvalue => ⟨fvalue.bits⟩
  | _ => none

/-- The value `read_attr_value` finds in the control file, if no file operation fails. -/
def read_attr_file (attr : PwrAttrName) (data_type : PwrAttrDataType) (file : ControlFile) :
    Option TypeUnion :=
  match attr with
  | .CSTATE_LIMIT => (read_cstate_limit file).map fun ivalue => ⟨ivalue⟩
  | .GOV => (read_governor file).map fun ivalue => ⟨ivalue⟩
  | _ => read_value_by_type file data_type

/-- The loop of `write_cstate_limit` over the flags of the states `i`, `i + 1` and so on. -/
def write_cstate_limit_loop (ivalue : UInt64) : Nat → List UInt64 → List UInt64
  | _, [] => []
  | i, _ :: rest => (if ivalue.toNat < i then 1 else 0) :: write_cstate_limit_loop ivalue (i + 1) rest

def write_cstate_limit (file : ControlFile) (ivalue : UInt64) : Option ControlFile :=
  if get_cstates_count file ≤ ivalue.toNat then none
  else some (.cstates (file.flags.take 1 ++ write_cstate_limit_loop ivalue 1 file.flags.tail))

def write_governor (file : ControlFile) (ivalue : UInt64) : Option ControlFile :=
  file_write_string file (pwr_gov_to_string (.of_ivalue ivalue))

def write_value_by_type (file : ControlFile) (data_type : PwrAttrDataType) (value : TypeUnion) :
    Option ControlFile :=
  match data_type with
  | .UINT64 => file_write_uint64 file value.ivalue
  | .DOUBLE => file_write_double file value.fvalue
  | _ => none

/-- The control file after `write_attr_value`, or `none` where the source
    reports an error although no file operation failed. -/
def write_attr_file (attr : PwrAttrName) (data_type : PwrAttrDataType) (value : TypeUnion)
    (file : ControlFile) : Option ControlFile :=
  match attr with
  | .CSTATE_LIMIT => write_cstate_limit file value.ivalue
  | .GOV => write_governor file value.ivalue
  | _ => write_value_by_type file data_type value

/-- What a value is read as after it was written. -/
def stored_value (attr : PwrAttrName) (data_type : PwrAttrDataType) (value : TypeUnion) : TypeUnion :=
  match attr, data_type with
  | .CSTATE_LIMIT, _ => value
  | _, .DOUBLE => ⟨value.fvalue.six_decimals.bits⟩
  | _, _ => value

theorem file_read_uint64_of_write {file written : ControlFile} {value : UInt64}
    (h : file_write_uint64 file value = some written) : file_read_uint64 written = some value := by
  cases file <;> simp_all [file_write_uint64, ControlFile.overwrite] <;> subst h <;> rfl

theorem file_read_double_of_write {file written : ControlFile} {value : Binary64}
    (h : file_write_double file value = some written) : file_read_double written = some value.six_decimals := by
  cases file <;> simp_all [file_write_double, ControlFile.overwrite] <;> subst h <;> rfl

theorem read_governor_of_write {file written : ControlFile} {ivalue : UInt64}
    (h : write_governor file ivalue = some written) :
    read_governor written = some (pwr_string_to_gov (pwr_gov_to_string (.of_ivalue ivalue))).ivalue := by
  cases file <;> simp_all [write_governor, file_write_string, ControlFile.overwrite] <;> subst h <;>
    simp [read_governor, file_read_string]

/-- Reading stops at the first state above the limit that was written. -/
theorem read_cstate_limit_loop_write (ivalue : UInt64) (i : Nat) (flags : List UInt64)
    (hlo : i ≤ ivalue.toNat + 1) (hhi : ivalue.toNat + 1 ≤ i + flags.length) :
    read_cstate_limit_loop i (write_cstate_limit_loop ivalue i flags) = ivalue.toNat + 1 := by
  induction flags generalizing i with
  | nil =>
    simp only [List.length_nil, Nat.add_zero] at hhi
    simp only [write_cstate_limit_loop, read_cstate_limit_loop]
    omega
  | cons flag rest ih =>
    simp only [write_cstate_limit_loop, read_cstate_limit_loop]
    by_cases habove : ivalue.toNat < i
    · have hstop : i = ivalue.toNat + 1 := by omega
      simp [hstop]
    · simp only [habove, ↓reduceIte]
      rw [if_neg (by decide)]
      exact ih (i + 1) (by omega) (by simp only [List.length_cons] at hhi; omega)

/-- A successful write of a C-state limit is read back, whatever the flags were. -/
theorem read_cstate_limit_of_write {file written : ControlFile} {ivalue : UInt64}
    (h : write_cstate_limit file ivalue = some written) : read_cstate_limit written = some ivalue := by
  unfold write_cstate_limit at h
  split at h
  · cases h
  · next hcount =>
    simp only [get_cstates_count] at hcount
    cases hflags : file.flags with
    | nil => simp [hflags] at hcount
    | cons first rest =>
      simp only [hflags, List.take_succ_cons, List.take_zero, List.tail_cons, List.singleton_append,
        Option.some.injEq] at h
      subst h
      have hloop := read_cstate_limit_loop_write ivalue 1 rest (by omega)
        (by simp only [hflags, List.length_cons] at hcount; omega)
      simp [read_cstate_limit, ControlFile.flags, hloop]

/-- A value that was written is read back, with its six decimals, for every attribute whose file holds numbers. -/
theorem read_attr_file_of_write {attr : PwrAttrName} {data_type : PwrAttrDataType}
    {value : TypeUnion} {file written : ControlFile} (hgov : attr ≠ .GOV)
    (h : write_attr_file attr data_type value file = some written) :
    read_attr_file attr data_type written = some (stored_value attr data_type value) := by
  have by_type (hattr : attr ≠ .CSTATE_LIMIT) (h : write_value_by_type file data_type value = some written) :
      read_value_by_type written data_type = some (stored_value attr data_type value) := by
    cases data_type with
    | UINT64 =>
      rw [read_value_by_type, file_read_uint64_of_write h]
      cases attr <;> rfl
    | DOUBLE =>
      rw [read_value_by_type, file_read_double_of_write h]
      cases attr with
      | CSTATE_LIMIT => exact absurd rfl hattr
      | _ => rfl
    | INVALID => cases h
    | NOT_SPECIFIED => cases h
    | OTHER raw => cases h
  cases attr with
  | CSTATE_LIMIT =>
    rw [read_attr_file, read_cstate_limit_of_write h]
    rfl
  | GOV => exact absurd rfl hgov
  | _ => exact by_type (by simp) h

end pwrapi.daemon
