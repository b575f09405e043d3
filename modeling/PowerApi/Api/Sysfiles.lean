import Mathlib.Data.List.Forall2
import Mathlib.Data.List.Nodup
import PowerApi.Lib.Execution
import PowerApi.Lib.Printf

open Execution Printf

namespace pwrapi

/-- `sysentry_t`: a key of the system files catalog with its path, a printf format. -/
structure Sysentry where
  key : List Char
  val : List Char
  deriving DecidableEq, Repr

def whitespace (c : Char) : Bool := c = ' ' || c = '\t' || c = '\n'

def skipspace (p : List Char) : List Char := p.dropWhile whitespace

/-- The characters that end a format specifier for `fmtmatch`. -/
def terminator (c : Char) : Bool := ['d', 'u', 'x', 'f', 's'].contains c

/-- The inner loop of `fmtmatch`: where both strings stand at a terminator or one is
exhausted, or `none` on a fatal mismatch. -/
def fmt_compare : List Char → List Char → Option (List Char × List Char)
  | r :: ref, s :: str =>
    if r ≠ s then none
    else if terminator r then some (r :: ref, s :: str)
    else fmt_compare ref str
  | ref, str => some (ref, str)

/-- Advance to the next `%`, or to the end. -/
def skip_to_percent (p : List Char) : List Char := p.dropWhile (· ≠ '%')

theorem fmt_compare_length {ref str ref' str' : List Char} (h : fmt_compare ref str = some (ref', str')) :
    ref'.length ≤ ref.length ∧ str'.length ≤ str.length := by
  induction ref generalizing str with
  | nil =>
    cases h
    exact ⟨Nat.le_refl _, Nat.le_refl _⟩
  | cons r ref ih =>
    cases str with
    | nil =>
      cases h
      exact ⟨Nat.le_refl _, Nat.le_refl _⟩
    | cons s str =>
      simp only [fmt_compare] at h
      split at h
      · cases h
      · split at h
        · cases h
          exact ⟨Nat.le_refl _, Nat.le_refl _⟩
        · obtain ⟨href, hstr⟩ := ih h
          exact ⟨Nat.le_succ_of_le href, Nat.le_succ_of_le hstr⟩

theorem skip_to_percent_cases (p : List Char) :
    skip_to_percent p = [] ∨ ∃ rest, skip_to_percent p = '%' :: rest ∧ rest.length < p.length := by
  have hlength := (List.dropWhile_suffix (fun c : Char => decide (c ≠ '%')) (l := p)).length_le
  cases h : skip_to_percent p with
  | nil => exact Or.inl rfl
  | cons c rest =>
    have hhead := List.head?_dropWhile_not (fun c : Char => decide (c ≠ '%')) p
    rw [show p.dropWhile (fun c : Char => decide (c ≠ '%')) = c :: rest from h] at hhead hlength
    obtain rfl : c = '%' := by simpa using hhead
    exact Or.inr ⟨rest, rfl, hlength⟩

/-- Each turn of the outer loop of `fmtmatch` leaves less to be scanned. -/
theorem fmt_compare_decreases {ref str ref' str' : List Char} (hne : ¬(ref = [] ∨ str = []))
    (h : fmt_compare (skip_to_percent ref) (skip_to_percent str) = some (ref', str')) :
    ref'.length + str'.length < ref.length + str.length := by
  obtain ⟨href, hstr⟩ := not_or.mp hne
  have href := List.length_pos_of_ne_nil href
  have hstr := List.length_pos_of_ne_nil hstr
  obtain hr | ⟨r, hr, hrlt⟩ := skip_to_percent_cases ref
  · obtain hs | ⟨s, hs, hslt⟩ := skip_to_percent_cases str
    · rw [hr, hs] at h
      cases h
      simp only [List.length_nil]
      omega
    · rw [hr, hs] at h
      cases h
      simp only [List.length_nil, List.length_cons]
      omega
  · obtain hs | ⟨s, hs, hslt⟩ := skip_to_percent_cases str
    · rw [hr, hs] at h
      cases h
      simp only [List.length_nil, List.length_cons]
      omega
    · rw [hr, hs] at h
      have hlength := fmt_compare_length (show fmt_compare r s = some (ref', str') from h)
      omega

/-- Compare a string with a reference string: all format specifiers have to match. -/
def fmtmatch (ref str : List Char) : Bool :=
  if _ : ref = [] ∨ str = [] then ref.isEmpty && str.isEmpty
  else
    match _ : fmt_compare (skip_to_percent ref) (skip_to_percent str) with
    | none => false
    | some (ref', str') => fmtmatch ref' str'
termination_by ref.length + str.length
decreasing_by exact fmt_compare_decreases (by assumption) (by assumption)

/-- What a line of the configuration file says. -/
inductive ConfigLine where
  | ignored
  | malformed
  | directive (key val : List Char)
  deriving DecidableEq, Repr

/-- Take a line apart: blank lines and comments are ignored, and an absolute path
is expected behind a key and `=`. -/
def parse_line (buf : List Char) : ConfigLine :=
  let p := skipspace (buf.reverse.dropWhile whitespace).reverse
  match p with
  | [] => .ignored
  | '#' :: _ => .ignored
  | _ =>
    let in_key (c : Char) : Bool := c ≠ '=' && !whitespace c
    let key := p.takeWhile in_key
    match skipspace (p.dropWhile in_key) with
    | '=' :: p =>
      match skipspace p with
      | '/' :: path => .directive key ('/' :: path)
      | _ => .malformed
    | _ => .malformed

def trim_slashes (val : List Char) : List Char := (val.reverse.dropWhile (· = '/')).reverse

/-- The values that have been set while the file is read, and the chroot. -/
structure Reading where
  vals : List Sysentry := []
  root : Option (List Char) := none

/-- The value that a key has been set to. -/
def Reading.find (r : Reading) (key : List Char) : Option (List Char) :=
  (r.vals.find? fun s => decide (s.key = key)).map Sysentry.val

/-- The key of the lines that give a prefix for the default paths. -/
def chroot : List Char := "chroot".toList

/-- Act on a line of the file; `none` on an error. -/
def read_line (backup : List Sysentry) (line : List Char) (r : Reading) : Option Reading :=
  match parse_line line with
  | .ignored => some r
  | .malformed => none
  | .directive key val =>
    if key = chroot then some { r with root := some (trim_slashes val) }
    else
      match backup.find? fun t => decide (t.key = key) with
      | none => none
      | some t =>
        if (r.find key).isSome then none
        else if fmtmatch t.val val then some { r with vals := ⟨key, val⟩ :: r.vals }
        else none

def read_lines (backup : List Sysentry) : List (List Char) → Reading → Option Reading
  | [], r => some r
  | line :: rest, r => (read_line backup line r).bind (read_lines backup rest)

/-- The value that an entry ends up with: what it was set to, else its default
behind the chroot. -/
def Reading.value (r : Reading) (t : Sysentry) : List Char :=
  match r.find t.key with
  | some val => val
  | none =>
    match r.root with
    | some root => root ++ t.val
    | none => t.val

/-- The catalog of the plugin, and the backup of it once there is one. -/
structure Sysfiles where
  catalog : List Sysentry
  backup : Option (List Sysentry) := none

/-- Set the catalog up from the configuration file, given by its lines; `none` when it
cannot be opened. After an error in the file all values are the defaults. -/
def configure_sysfiles (file : Option (List (List Char))) (s : Sysfiles) : Sysfiles :=
  let backup := s.backup.getD s.catalog
  let reading : Reading :=
    match file with
    | none => {}
    | some lines => (read_lines backup lines {}).getD {}
  { catalog := backup.map fun t => { t with val := reading.value t }, backup := some backup }

/-- Every specification ends at its first terminator, and none is a literal `%`. -/
def simple_from (scan : Scan) : List Char → Bool
  | [] => scan = .text
  | c :: rest =>
    match scan.step c with
    | none => false
    | some (scan', _) => (scan = .text || (terminator c == decide (scan' = .text))) && simple_from scan' rest

/-- A format that `fmtmatch` can compare others with. -/
def Simple (format : List Char) : Prop := simple_from .text format = true

instance (format : List Char) : Decidable (Simple format) := inferInstanceAs (Decidable (_ = true))

section Match

variable {ref str ref' str' rest : List Char} {stage : Stage} {seen : List Char}

theorem simple_text_cons {c : Char} (hc : c ≠ '%') :
    simple_from .text (c :: rest) = simple_from .text rest := by
  simp [simple_from, Scan.step, hc]

theorem conversions_text_cons {c : Char} (hc : c ≠ '%') : conversions (c :: rest) = conversions rest := by
  simp [conversions, conversions_from, Scan.step, hc]

theorem conversions_percent : conversions ('%' :: rest) = conversions_from (.spec .flags []) rest := by
  simp [conversions, conversions_from, Scan.step]

theorem simple_skip_to_percent (format : List Char) :
    simple_from .text (skip_to_percent format) = simple_from .text format := by
  induction format with
  | nil => rfl
  | cons c rest ih =>
    unfold skip_to_percent
    by_cases hc : c = '%'
    · rw [List.dropWhile_cons_of_neg (by simpa using hc)]
    · rw [List.dropWhile_cons_of_pos (by simpa using hc), simple_text_cons hc]
      exact ih

theorem terminator_ne_percent {c : Char} (h : terminator c = true) : c ≠ '%' := by
  rintro rfl
  exact absurd h (by decide)

/-- Inside a specification of a simple reference, the strings are compared up to the
terminator, which takes the same arguments from both. -/
theorem fmt_compare_spec (hsimple : simple_from (.spec stage seen) ref = true)
    (h : fmt_compare ref str = some (ref', str')) :
    (ref' ≠ [] ∧ str' = []) ∨ ∃ c r s args, ref' = c :: r ∧ str' = c :: s ∧ c ≠ '%' ∧ Simple r ∧
      conversions_from (.spec stage seen) ref = (conversions r).map (args ++ ·) ∧
      conversions_from (.spec stage seen) str = (conversions s).map (args ++ ·) := by
  induction ref generalizing stage seen str with
  | nil => cases hsimple
  | cons c ref ih =>
    cases str with
    | nil =>
      cases h
      exact Or.inl ⟨List.cons_ne_nil _ _, rfl⟩
    | cons d str =>
      simp only [fmt_compare] at h
      split at h
      · cases h
      · next heq =>
        obtain rfl : c = d := not_not.mp heq
        simp only [simple_from] at hsimple
        simp only [conversions_from]
        cases hstep : (Scan.spec stage seen).step c with
        | none => simp [hstep] at hsimple
        | some next =>
          obtain ⟨scan', args⟩ := next
          simp only [hstep, reduceCtorEq, decide_false, Bool.false_or, Bool.and_eq_true, beq_iff_eq] at hsimple ⊢
          obtain ⟨hend, hsimple⟩ := hsimple
          split at h
          · next hterm =>
            cases h
            obtain rfl : scan' = .text := by simpa [hterm] using hend
            exact Or.inr ⟨c, ref, str, args, rfl, rfl, terminator_ne_percent hterm, hsimple, rfl, rfl⟩
          · next hterm =>
            cases scan' with
            | text => simp [hterm] at hend
            | spec stage' seen' =>
              obtain hleft | ⟨c', r, s, args', hr, hs, hc', hrest, hfirst, hsecond⟩ := ih hsimple h
              · exact Or.inl hleft
              · refine Or.inr ⟨c', r, s, args ++ args', hr, hs, hc', hrest, ?_, ?_⟩
                · rw [hfirst, Option.map_map]
                  congr 1
                  funext ys
                  simp
                · rw [hsecond, Option.map_map]
                  congr 1
                  funext ys
                  simp

theorem fmtmatch_eq (hne : ¬(ref = [] ∨ str = [])) :
    fmtmatch ref str = (fmt_compare (skip_to_percent ref) (skip_to_percent str)).elim false
      fun next => fmtmatch next.1 next.2 := by
  rw [fmtmatch, dif_neg hne]
  split
  · next h => rw [h, Option.elim_none]
  · next ref' str' h => rw [h, Option.elim_some]

theorem fmtmatch_nil : fmtmatch [] str = str.isEmpty := by
  rw [fmtmatch, dif_pos (Or.inl rfl), List.isEmpty_nil, Bool.true_and]

theorem not_fmtmatch_nil (hne : ref ≠ []) : fmtmatch ref [] = false := by
  rw [fmtmatch, dif_pos (Or.inr rfl), List.isEmpty_eq_false_iff.mpr hne, Bool.false_and]

/-- A string that matches a simple reference takes the same arguments. -/
theorem fmtmatch_conversions (hsimple : Simple ref) (h : fmtmatch ref str = true) :
    conversions str = conversions ref := by
  induction ref, str using fmtmatch.induct with
  | case1 ref str hdone =>
    rw [fmtmatch, dif_pos hdone, Bool.and_eq_true, List.isEmpty_iff, List.isEmpty_iff] at h
    rw [h.1, h.2]
  | case2 ref str hne hcompare =>
    rw [fmtmatch_eq hne, hcompare, Option.elim_none] at h
    cases h
  | case3 ref str hne ref' str' hcompare ih =>
    rw [fmtmatch_eq hne, hcompare, Option.elim_some] at h
    have hsimple' : simple_from .text (skip_to_percent ref) = true := by rwa [simple_skip_to_percent]
    rw [← conversions_dropWhile ref, ← conversions_dropWhile str]
    change conversions (skip_to_percent str) = conversions (skip_to_percent ref)
    obtain href | ⟨r, href, _⟩ := skip_to_percent_cases ref
    · rw [href] at hcompare ⊢
      cases hcompare
      rw [fmtmatch_nil] at h
      have hstr : skip_to_percent str = [] := List.isEmpty_iff.mp h
      rw [hstr]
    · obtain hstr | ⟨s, hstr, _⟩ := skip_to_percent_cases str
      · rw [href, hstr] at hcompare
        cases hcompare
        rw [not_fmtmatch_nil (List.cons_ne_nil _ _)] at h
        cases h
      · rw [href, hstr] at hcompare
        rw [href] at hsimple' ⊢
        rw [hstr, conversions_percent, conversions_percent]
        have hspec : simple_from (.spec .flags []) r = true := by simpa [simple_from, Scan.step] using hsimple'
        obtain ⟨hne', rfl⟩ | ⟨c, r', s', args, rfl, rfl, hc, hrest, hr, hs⟩ :=
          fmt_compare_spec hspec (show fmt_compare r s = some (ref', str') from hcompare)
        · rw [not_fmtmatch_nil hne'] at h
          cases h
        · have hrec := ih ((simple_text_cons hc).trans hrest) h
          rw [conversions_text_cons hc, conversions_text_cons hc] at hrec
          rw [hr, hs, hrec]

example : fmtmatch "/sys/cpu%lu/msr/%xr".toList "/tmp/%lu-%x".toList = true := by decide +kernel

example : fmtmatch "/sys/cpu%lu/msr/%xr".toList "/tmp/%lu-%%-%x".toList = false := by decide +kernel

end Match

/-- The keys and values of the lines that set one. -/
def directives (lines : List (List Char)) : List (List Char × List Char) :=
  lines.filterMap fun line =>
    match parse_line line with
    | .directive key val => some (key, val)
    | _ => none

/-- The lines that set the value of a key of the catalog. -/
def overrides (lines : List (List Char)) : List Sysentry :=
  ((directives lines).filter fun d => decide (d.1 ≠ chroot)).map fun d => ⟨d.1, d.2⟩

/-- The chroots that the lines set, without trailing slashes. -/
def roots (lines : List (List Char)) : List (List Char) :=
  ((directives lines).filter fun d => decide (d.1 = chroot)).map fun d => trim_slashes d.2

/-- No line of the file is in error, after some entries have been set. -/
structure Accepted (builtin : List Sysentry) (vals : List Sysentry) (lines : List (List Char)) : Prop where
  formed : ∀ line ∈ lines, parse_line line ≠ .malformed
  matching : ∀ s ∈ overrides lines, ∃ t, builtin.find? (fun t => decide (t.key = s.key)) = some t ∧
    fmtmatch t.val s.val = true
  distinct : (((overrides lines).reverse ++ vals).map Sysentry.key).Nodup

section Read

variable {builtin : List Sysentry} {line : List Char} {lines : List (List Char)} {r r' : Reading}

theorem find_isSome_iff {key : List Char} : (r.find key).isSome = true ↔ key ∈ r.vals.map Sysentry.key := by
  rw [Reading.find, Option.isSome_map, List.find?_isSome, List.mem_map]
  simp

theorem directives_cons (line : List Char) (lines : List (List Char)) : directives (line :: lines) =
    (match parse_line line with
      | .directive key val => [(key, val)]
      | _ => []) ++ directives lines := by
  unfold directives
  cases hline : parse_line line with
  | ignored => simp [hline]
  | malformed => simp [hline]
  | directive key val => simp [hline]

theorem overrides_cons (line : List Char) (lines : List (List Char)) : overrides (line :: lines) =
    (match parse_line line with
      | .directive key val => if key = chroot then [] else [⟨key, val⟩]
      | _ => []) ++ overrides lines := by
  rw [overrides, directives_cons, List.filter_append, List.map_append, ← overrides]
  congr 1
  cases parse_line line with
  | ignored => rfl
  | malformed => rfl
  | directive key val => by_cases hkey : key = chroot <;> simp [hkey]

theorem roots_cons (line : List Char) (lines : List (List Char)) : roots (line :: lines) =
    (match parse_line line with
      | .directive key val => if key = chroot then [trim_slashes val] else []
      | _ => []) ++ roots lines := by
  rw [roots, directives_cons, List.filter_append, List.map_append, ← roots]
  congr 1
  cases parse_line line with
  | ignored => rfl
  | malformed => rfl
  | directive key val => by_cases hkey : key = chroot <;> simp [hkey]

/-- A line that sets no value adds nothing to what is accepted. -/
theorem accepted_cons_iff {vals : List Sysentry} (hformed : parse_line line ≠ .malformed)
    (hnone : overrides (line :: lines) = overrides lines) :
    Accepted builtin vals (line :: lines) ↔ Accepted builtin vals lines := by
  constructor
  · rintro ⟨hall, hmatching, hdistinct⟩
    rw [hnone] at hmatching hdistinct
    exact ⟨(List.forall_mem_cons.mp hall).2, hmatching, hdistinct⟩
  · rintro ⟨hall, hmatching, hdistinct⟩
    refine ⟨List.forall_mem_cons.mpr ⟨hformed, hall⟩, ?_, ?_⟩
    · rwa [hnone]
    · rwa [hnone]

/-- A line that sets a value is accepted when the value matches and is the first for its key. -/
theorem accepted_override_iff {vals : List Sysentry} {s : Sysentry} (hformed : parse_line line ≠ .malformed)
    (hsome : overrides (line :: lines) = s :: overrides lines) :
    Accepted builtin vals (line :: lines) ↔
      (∃ t, builtin.find? (fun t => decide (t.key = s.key)) = some t ∧ fmtmatch t.val s.val = true) ∧
        Accepted builtin (s :: vals) lines := by
  constructor
  · rintro ⟨hall, hmatching, hdistinct⟩
    rw [hsome] at hmatching hdistinct
    obtain ⟨hfirst, hrest⟩ := List.forall_mem_cons.mp hmatching
    exact ⟨hfirst, (List.forall_mem_cons.mp hall).2, hrest, by simpa using hdistinct⟩
  · rintro ⟨hfirst, hall, hmatching, hdistinct⟩
    refine ⟨List.forall_mem_cons.mpr ⟨hformed, hall⟩, ?_, ?_⟩
    · rw [hsome]
      exact List.forall_mem_cons.mpr ⟨hfirst, hmatching⟩
    · rw [hsome]
      simpa using hdistinct

/-- Reading succeeds exactly on the files without an error, and gathers what they set. -/
theorem read_lines_iff (hvals : (r.vals.map Sysentry.key).Nodup) : read_lines builtin lines r = some r' ↔
    Accepted builtin r.vals lines ∧
      r' = ⟨(overrides lines).reverse ++ r.vals, (roots lines).getLast?.or r.root⟩ := by
  induction lines generalizing r with
  | nil =>
    have haccepted : Accepted builtin r.vals [] :=
      ⟨by simp, by simp [overrides, directives], by simpa [overrides, directives] using hvals⟩
    simp [read_lines, haccepted, overrides, roots, directives, eq_comm]
  | cons line rest ih =>
    have hoverrides := overrides_cons line rest
    have hroots := roots_cons line rest
    simp only [read_lines, read_line]
    cases hline : parse_line line with
    | ignored =>
      simp only [hline, List.nil_append] at hoverrides hroots
      simp only [Option.bind_some]
      rw [ih hvals, hoverrides, hroots, accepted_cons_iff (by rw [hline]; simp) hoverrides]
    | malformed =>
      have hnot : ¬Accepted builtin r.vals (line :: rest) := fun h => h.formed line List.mem_cons_self hline
      simp [hnot]
    | directive key val =>
      simp only [hline] at hoverrides hroots
      by_cases hkey : key = chroot
      · simp only [hkey, if_true, List.nil_append, Option.bind_some] at hoverrides hroots ⊢
        have hrest := ih (r := { r with root := some (trim_slashes val) }) hvals
        have hlast : ([trim_slashes val] ++ roots rest).getLast?.or r.root =
            (roots rest).getLast?.or (some (trim_slashes val)) := by
          rw [List.getLast?_append, Option.or_assoc]
          rfl
        rw [hrest, hoverrides, accepted_cons_iff (by rw [hline]; simp) hoverrides, hroots, hlast]
      · simp only [hkey, if_false, List.nil_append, List.singleton_append] at hoverrides hroots ⊢
        rw [accepted_override_iff (by rw [hline]; simp) hoverrides, hoverrides, hroots]
        cases hfind : builtin.find? (fun t => decide (t.key = key)) with
        | none => simp
        | some t =>
          by_cases hset : (r.find key).isSome = true
          · have hdup : ¬Accepted builtin (⟨key, val⟩ :: r.vals) rest := by
              intro h
              have hnodup := h.distinct
              rw [List.map_append, List.map_cons, List.nodup_append] at hnodup
              exact (List.nodup_cons.mp hnodup.2.1).1 (find_isSome_iff.mp hset)
            simp [hset, hdup]
          · have hvals' : ((⟨key, val⟩ :: r.vals).map Sysentry.key).Nodup :=
              List.nodup_cons.mpr ⟨fun hmem => hset (find_isSome_iff.mpr hmem), hvals⟩
            have hrest := ih (r := { r with vals := ⟨key, val⟩ :: r.vals }) hvals'
            by_cases hmatch : fmtmatch t.val val = true
            · simp [hset, hmatch, hrest]
            · simp [hset, hmatch]

end Read

/-- A catalog of paths that the library is built with: each key once, and absolute
paths with simple specifications only. -/
structure BuiltIn (builtin : List Sysentry) : Prop where
  distinct : (builtin.map Sysentry.key).Nodup
  simple : ∀ t ∈ builtin, Simple t.val
  absolute : ∀ t ∈ builtin, ∃ path, t.val = '/' :: path

/-- Every entry has its key, and a path that takes the same arguments as the built-in one. -/
def WellTyped (builtin catalog : List Sysentry) : Prop :=
  List.Forall₂ (fun t s => s.key = t.key ∧ conversions s.val = conversions t.val) builtin catalog

/-- Where the file is accepted and a path is left to be put behind its last chroot,
that chroot takes no arguments and holds no malformed or unfinished specification. -/
def HarmlessChroot (builtin : List Sysentry) (file : Option (List (List Char))) : Prop :=
  ∀ lines ∈ file, Accepted builtin [] lines → ∀ root ∈ (roots lines).getLast?,
    (∃ t ∈ builtin, t.key ∉ (overrides lines).map Sysentry.key) → conversions root = some []

section Configure

variable {builtin : List Sysentry} {lines : List (List Char)} {r : Reading} {t : Sysentry}

theorem conversions_of_simple {scan : Scan} {format : List Char} (h : simple_from scan format = true) :
    ∃ args, conversions_from scan format = some args := by
  induction format generalizing scan with
  | nil =>
    have htext : scan = .text := by simpa [simple_from] using h
    exact ⟨[], by rw [conversions_from, if_pos htext]⟩
  | cons c rest ih =>
    simp only [simple_from] at h
    simp only [conversions_from]
    cases hstep : scan.step c with
    | none => simp [hstep] at h
    | some next =>
      simp only [hstep, Bool.and_eq_true] at h
      obtain ⟨args, hargs⟩ := ih h.2
      exact ⟨next.2 ++ args, by simp [hargs]⟩

theorem breaks_slash : Breaks '/' := by
  refine ⟨by decide, by decide, fun stage => ?_⟩
  cases stage with
  | length letter =>
    have hneither : ('/' = 'h' || '/' = 'l') = false := by decide
    simp [Stage.next]
  | _ => rfl

/-- A prefix is harmless to a built-in path exactly when it takes no arguments itself. -/
theorem BuiltIn.conversions_prefix_iff (hb : BuiltIn builtin) (ht : t ∈ builtin) (root : List Char) :
    conversions (root ++ t.val) = conversions t.val ↔ conversions root = some [] := by
  obtain ⟨path, hpath⟩ := hb.absolute t ht
  obtain ⟨args, hargs⟩ := conversions_of_simple (hb.simple t ht)
  have hargs : conversions t.val = some args := hargs
  rw [hpath] at hargs ⊢
  rw [hargs, conversions_append_iff breaks_slash hargs]

/-- An entry is found in the built-in catalog under its key. -/
theorem BuiltIn.find_eq (hb : BuiltIn builtin) (ht : t ∈ builtin) {t' : Sysentry}
    (hfind : builtin.find? (fun u => decide (u.key = t.key)) = some t') : t' = t := by
  have hkey : t'.key = t.key := by simpa using List.find?_some hfind
  exact List.inj_on_of_nodup_map hb.distinct (List.mem_of_find?_eq_some hfind) ht hkey

/-- A value that was set takes the arguments of the built-in path. -/
theorem BuiltIn.conversions_override (hb : BuiltIn builtin) (ht : t ∈ builtin) (haccepted : Accepted builtin [] lines)
    {root : Option (List Char)} {val : List Char}
    (hfind : Reading.find ⟨(overrides lines).reverse, root⟩ t.key = some val) :
    conversions val = conversions t.val := by
  obtain ⟨s, hs, rfl⟩ := Option.map_eq_some_iff.mp hfind
  have hkey : s.key = t.key := by simpa using List.find?_some hs
  obtain ⟨t', hfind', hmatch⟩ := haccepted.matching s (List.mem_reverse.mp (List.mem_of_find?_eq_some hs))
  rw [hkey] at hfind'
  obtain rfl := hb.find_eq ht hfind'
  exact fmtmatch_conversions (hb.simple t' ht) hmatch

theorem wellTyped_map_iff : WellTyped builtin (builtin.map fun t => { t with val := r.value t }) ↔
    ∀ t ∈ builtin, conversions (r.value t) = conversions t.val := by
  rw [WellTyped, List.forall₂_map_right_iff, List.forall₂_same]
  simp

/-- One run of `configure_sysfiles` leaves well typed paths exactly when the chroot is harmless. -/
theorem configure_sysfiles_wellTyped_iff (hb : BuiltIn builtin) (file : Option (List (List Char))) {s : Sysfiles}
    (hs : s.backup.getD s.catalog = builtin) :
    WellTyped builtin (configure_sysfiles file s).catalog ↔ HarmlessChroot builtin file := by
  have hdefaults : ∀ t ∈ builtin, conversions (({} : Reading).value t) = conversions t.val := fun t _ => rfl
  simp only [configure_sysfiles, hs]
  rw [wellTyped_map_iff]
  cases file with
  | none => exact iff_of_true hdefaults (by simp [HarmlessChroot])
  | some lines =>
    dsimp only
    cases hread : read_lines builtin lines {} with
    | none =>
      rw [Option.getD_none]
      refine iff_of_true hdefaults ?_
      intro lines' hlines haccepted
      cases hlines
      have hsome := (read_lines_iff (r := {}) List.nodup_nil).mpr ⟨haccepted, rfl⟩
      rw [hread] at hsome
      cases hsome
    | some r =>
      obtain ⟨haccepted, rfl⟩ := (read_lines_iff (r := {}) List.nodup_nil).mp hread
      simp only [Option.getD_some, List.append_nil, Option.or_none]
      constructor
      · intro hall lines' hlines _ root hroot ⟨t, ht, hfree⟩
        cases hlines
        have hvalue := hall t ht
        have hfind : Reading.find ⟨(overrides lines).reverse, (roots lines).getLast?⟩ t.key = none := by
          rw [← Option.not_isSome_iff_eq_none, find_isSome_iff]
          simpa using hfree
        rw [Reading.value, hfind] at hvalue
        simp only [Option.mem_def.mp hroot] at hvalue
        exact (hb.conversions_prefix_iff ht root).mp hvalue
      · intro hharmless t ht
        rw [Reading.value]
        cases hfind : Reading.find ⟨(overrides lines).reverse, (roots lines).getLast?⟩ t.key with
        | some val => exact hb.conversions_override ht haccepted hfind
        | none =>
          cases hroot : (roots lines).getLast? with
          | none => rfl
          | some root =>
            refine (hb.conversions_prefix_iff ht root).mpr (hharmless lines rfl haccepted root hroot ⟨t, ht, ?_⟩)
            rw [← Option.not_isSome_iff_eq_none, find_isSome_iff] at hfind
            simpa using hfind

/-- Runs of `configure_sysfiles` one after the other leave well typed paths exactly
when the chroot is harmless each time. -/
theorem BuiltIn.wellTyped_iff (hb : BuiltIn builtin) {run : List (Option (List (List Char)) × Sysfiles)}
    (hrun : EachStep (fun s file s' => s' = configure_sysfiles file s) { catalog := builtin } run) :
    (∀ x ∈ run, WellTyped builtin x.2.catalog) ↔
      EachStep (fun _ file _ => HarmlessChroot builtin file) { catalog := builtin } run := by
  rw [forall_mem_iff_eachStep (P := fun s : Sysfiles => WellTyped builtin s.catalog)]
  refine hrun.iff_of_invariant (I := fun s : Sysfiles => s.backup.getD s.catalog = builtin) rfl ?_ ?_
  · rintro s file s' rfl hs _
    rw [← hs]
    rfl
  · rintro s file s' rfl hs
    exact configure_sysfiles_wellTyped_iff hb file hs

end Configure

end pwrapi
