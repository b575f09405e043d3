import Mathlib.Data.List.Basic
import Mathlib.Tactic.Common

namespace Printf

/-- What a conversion specification takes from the arguments: the number for a
`*`, or the value that it converts, with its length modifier. -/
inductive Conversion where
  | star
  | value (length : List Char) (conversion : Char)
  deriving DecidableEq, Repr

/-- How far a conversion specification has been read: in its flags, in its width,
behind a `*` for the width, behind the point, in its precision, behind a `*` for the
precision, behind the first letter of a length modifier, or behind the whole of it. -/
inductive Stage where
  | flags | width | starred | point | precision | ready
  | length (letter : Char)
  | sized
  deriving DecidableEq, Repr

def is_flag (c : Char) : Bool := ['-', '+', ' ', '#', '0', '\'', 'I'].contains c

def is_digit (c : Char) : Bool := ['0', '1', '2', '3', '4', '5', '6', '7', '8', '9'].contains c

def is_length (c : Char) : Bool := ['h', 'l', 'q', 'L', 'j', 'z', 'Z', 't'].contains c

def is_conversion (c : Char) : Bool :=
  ['d', 'i', 'o', 'u', 'x', 'X', 'e', 'E', 'f', 'F', 'g', 'G', 'a', 'A', 'c', 's', 'C', 'S', 'p', 'n', 'm'].contains c

/-- The stage behind the next character, where that belongs to the specification
and does not end it. -/
def Stage.next (stage : Stage) (c : Char) : Option Stage :=
  let modifier := if is_length c then some (.length c) else none
  match stage with
  | .flags =>
    if is_flag c then some .flags
    else if is_digit c then some .width
    else if c = '*' then some .starred
    else if c = '.' then some .point
    else modifier
  | .width => if is_digit c then some .width else if c = '.' then some .point else modifier
  | .starred => if c = '.' then some .point else modifier
  | .point => if is_digit c then some .precision else if c = '*' then some .ready else modifier
  | .precision => if is_digit c then some .precision else modifier
  | .ready => modifier
  | .length letter => if c = letter && (c = 'h' || c = 'l') then some .sized else none
  | .sized => none

/-- The arguments of a specification with the given characters before its last one.
`%m` converts the error number and no argument. -/
def consumed (seen : List Char) (c : Char) : List Conversion :=
  List.replicate (seen.count '*') .star ++ if c = 'm' then [] else [.value (seen.filter is_length) c]

/-- Where the scan of a format string stands: in literal text, or in a specification
of which some characters have been seen. -/
inductive Scan where
  | text
  | spec (stage : Stage) (seen : List Char)
  deriving DecidableEq, Repr

/-- One character further: where the scan stands then and which arguments are taken.
`none` when the character has no place in the specification. -/
def Scan.step (scan : Scan) (c : Char) : Option (Scan × List Conversion) :=
  match scan with
  | .text => some (if c = '%' then .spec .flags [] else .text, [])
  | .spec stage seen =>
    if c = '%' then if seen = [] then some (.text, []) else none
    else if is_conversion c then some (.text, consumed seen c)
    else (stage.next c).map fun stage => (.spec stage (seen ++ [c]), [])

/-- The arguments that the rest of a format string takes; `none` when it holds a
specification that is malformed or does not end. -/
def conversions_from (scan : Scan) : List Char → Option (List Conversion)
  | [] => if scan = .text then some [] else none
  | c :: rest =>
    match scan.step c with
    | none => none
    | some (scan', args) => (conversions_from scan' rest).map (args ++ ·)

/-- The arguments that a format string takes, in order. -/
def conversions (format : List Char) : Option (List Conversion) := conversions_from .text format

section Append

variable {scan : Scan} {a b : List Char} {xs : List Conversion}

/-- Where a format string is complete, what follows is scanned as text. -/
theorem conversions_from_append (h : conversions_from scan a = some xs) (b : List Char) :
    conversions_from scan (a ++ b) = (conversions b).map (xs ++ ·) := by
  induction a generalizing scan xs with
  | nil =>
    simp only [conversions_from] at h
    split at h
    · next htext =>
      cases h
      simp [htext, conversions]
    · cases h
  | cons c rest ih =>
    simp only [conversions_from, List.cons_append] at h ⊢
    cases hstep : scan.step c with
    | none => simp [hstep] at h
    | some next =>
      simp only [hstep] at h ⊢
      obtain ⟨ys, hys, rfl⟩ := Option.map_eq_some_iff.mp h
      rw [ih hys, Option.map_map]
      congr 1
      funext zs
      simp

/-- The character belongs to no specification. -/
def Breaks (c : Char) : Prop := c ≠ '%' ∧ is_conversion c = false ∧ ∀ stage : Stage, stage.next c = none

/-- What is not complete stays so before a character that belongs to no specification. -/
theorem conversions_from_append_none {c : Char} (hc : Breaks c) (h : conversions_from scan a = none) :
    conversions_from scan (a ++ c :: b) = none := by
  induction a generalizing scan with
  | nil =>
    cases scan with
    | text => cases h
    | spec stage seen =>
      obtain ⟨hpercent, hconv, hnext⟩ := hc
      simp [conversions_from, Scan.step, hpercent, hconv, hnext]
  | cons d rest ih =>
    simp only [conversions_from, List.cons_append] at h ⊢
    cases hstep : scan.step d with
    | none => rfl
    | some next =>
      simp only [hstep, Option.map_eq_none_iff] at h ⊢
      exact ih h

/-- A prefix leaves the arguments of a format string as they are exactly when it
takes none itself, and is complete. -/
theorem conversions_append_iff {c : Char} {ys : List Conversion} (hc : Breaks c)
    (hb : conversions (c :: b) = some ys) : conversions (a ++ c :: b) = some ys ↔ conversions a = some [] := by
  cases ha : conversions a with
  | none =>
    rw [conversions, conversions_from_append_none hc ha]
    simp
  | some xs =>
    rw [conversions, conversions_from_append ha, hb, Option.map_some, Option.some.injEq, Option.some.injEq]
    exact List.append_left_eq_self

/-- Literal text takes no arguments. -/
theorem conversions_dropWhile (a : List Char) : conversions (a.dropWhile (· ≠ '%')) = conversions a := by
  induction a with
  | nil => rfl
  | cons c rest ih =>
    by_cases hc : c = '%'
    · rw [List.dropWhile_cons_of_neg (by simpa using hc)]
    · rw [List.dropWhile_cons_of_pos (by simpa using hc), ih]
      simp [conversions, conversions_from, Scan.step, hc]

end Append

example : conversions "/cpu%lu/topology/%s".toList = some [.value ['l'] 'u', .value [] 's'] := by decide

end Printf
