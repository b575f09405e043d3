import PowerApi.Api.Sysfiles

open Execution

namespace pwrapi

/-- The lines that `getline` reads from a file, each with the line feed that ends it. -/
def getlines : List Char → List (List Char)
  | [] => []
  | c :: rest =>
    if c = '\n' then [c] :: getlines rest
    else
      match getlines rest with
      | [] => [[c]]
      | line :: lines => (c :: line) :: lines

/-- The lines of a file as strings, each up to its first null character. -/
def file_lines (content : List Char) : List (List Char) :=
  (getlines content).map fun buf => buf.takeWhile (· ≠ '\x00')

namespace Catalog

/-- `sysentry_t` while the file is read. A value that is not set is a null pointer. -/
structure Entry where
  key : List Char
  val : Option (List Char)
  deriving DecidableEq, Repr

/-- The catalog and the chroot while the file is read. -/
structure Progress where
  catalog : List Entry
  root : Option (List Char) := none
  deriving DecidableEq, Repr

/-- Look for the key in the catalog, with the backup beside it, and set the value; `none`
where the key is not there or set already, or the formats are not compatible. -/
def set_entry (key val : List Char) : List Entry → List Sysentry → Option (List Entry)
  | s :: catalog, t :: backup =>
    if s.key = key then
      if s.val.isSome then none
      else if fmtmatch t.val val then some ({ s with val := some val } :: catalog)
      else none
    else (set_entry key val catalog backup).map (s :: ·)
  | _, _ => none

/-- A turn of the loop over the lines; `none` on an error. -/
def take_line (backup : List Sysentry) (line : List Char) (p : Progress) : Option Progress :=
  match parse_line line with
  | .ignored => some p
  | .malformed => none
  | .directive key val =>
    if key = chroot then some { p with root := some (trim_slashes val) }
    else (set_entry key val p.catalog backup).map fun catalog => { p with catalog }

/-- The loop over the lines: whether there was an error, with what was set up to it. -/
def take_lines (backup : List Sysentry) : List (List Char) → Progress → Bool × Progress
  | [], p => (false, p)
  | line :: rest, p =>
    match take_line backup line p with
    | none => (true, p)
    | some p => take_lines backup rest p

/-- Put the chroot before the defaults of the values that are not set. -/
def fill_root (root : List Char) : List Entry → List Sysentry → List Entry
  | s :: catalog, t :: backup =>
    { s with val := some (s.val.getD (root ++ t.val)) } :: fill_root root catalog backup
  | catalog, _ => catalog

/-- Fill in the defaults of the values that are not set. -/
def fill_defaults : List Entry → List Sysentry → List Sysentry
  | s :: catalog, t :: backup => ⟨s.key, s.val.getD t.val⟩ :: fill_defaults catalog backup
  | _, _ => []

def clear (catalog : List Entry) : List Entry := catalog.map fun s => { s with val := none }

/-- What is done with a file that can be opened: whether there was an error, and the catalog. -/
def read_file (backup : List Sysentry) (content : List Char) (catalog : List Entry) : Bool × List Entry :=
  match take_lines backup (file_lines content) { catalog } with
  | (true, p) => (true, p.catalog)
  | (false, p) =>
    match p.root with
    | none => (false, p.catalog)
    | some root => (false, fill_root root p.catalog backup)

/-- `configure_sysfiles` as it changes the catalog in place, from the content of the file;
`none` when it cannot be opened. -/
def configure_sysfiles (file : Option (List Char)) (s : Sysfiles) : Sysfiles :=
  let backup := s.backup.getD s.catalog
  let catalog : List Entry := s.catalog.map fun e => ⟨e.key, none⟩
  let (error, catalog) :=
    match file with
    | none => (false, catalog)
    | some content => read_file backup content catalog
  let catalog := if error then clear catalog else catalog
  { catalog := fill_defaults catalog backup, backup := some backup }

section Refine

variable {backup : List Sysentry} {r : Reading}

/-- The progress of the loop that stands for what has been read. -/
def progress (backup : List Sysentry) (r : Reading) : Progress where
  catalog := backup.map fun t => ⟨t.key, r.find t.key⟩
  root := r.root

theorem find_cons (key val : List Char) (r : Reading) (other : List Char) :
    Reading.find { r with vals := ⟨key, val⟩ :: r.vals } other = if key = other then some val else r.find other := by
  by_cases hkey : key = other
  · simp [Reading.find, hkey]
  · simp [Reading.find, hkey]

/-- With distinct keys the search sets the value of its key and no other. -/
theorem set_entry_eq (hdistinct : (backup.map Sysentry.key).Nodup) (key val : List Char)
    (found : List Char → Option (List Char)) :
    set_entry key val (backup.map fun t => ⟨t.key, found t.key⟩) backup =
      match backup.find? fun t => decide (t.key = key) with
      | none => none
      | some t =>
        if (found key).isSome then none
        else if fmtmatch t.val val then
          some (backup.map fun t => ⟨t.key, if key = t.key then some val else found t.key⟩)
        else none := by
  induction backup with
  | nil => rfl
  | cons t backup ih =>
    rw [List.map_cons, List.nodup_cons] at hdistinct
    rw [List.map_cons, set_entry]
    by_cases hkey : t.key = key
    · have hothers : (backup.map fun t => (⟨t.key, if key = t.key then some val else found t.key⟩ : Entry)) =
          backup.map fun t => ⟨t.key, found t.key⟩ := by
        refine List.map_congr_left fun u hu => ?_
        have hne : key ≠ u.key := by
          rintro rfl
          exact hdistinct.1 (hkey ▸ List.mem_map_of_mem hu)
        rw [if_neg hne]
      simp [hkey, hothers]
    · rw [ih hdistinct.2]
      have hne : key ≠ t.key := Ne.symm hkey
      simp only [hkey, List.find?_cons, decide_false, if_false, List.map_cons, if_neg hne]
      cases backup.find? fun t => decide (t.key = key) with
      | none => rfl
      | some u =>
        dsimp only
        split_ifs
        · rfl
        · rfl
        · rfl

/-- A line acts on the progress as it acts on what has been read. -/
theorem take_line_eq (hdistinct : (backup.map Sysentry.key).Nodup) (line : List Char) (r : Reading) :
    take_line backup line (progress backup r) = (read_line backup line r).map (progress backup) := by
  unfold take_line read_line
  cases parse_line line with
  | ignored => rfl
  | malformed => rfl
  | directive key val =>
    dsimp only
    by_cases hchroot : key = chroot
    · rw [if_pos hchroot, if_pos hchroot]
      rfl
    · rw [if_neg hchroot, if_neg hchroot, progress, set_entry_eq hdistinct key val r.find]
      cases backup.find? fun t => decide (t.key = key) with
      | none => rfl
      | some t =>
        dsimp only
        split_ifs
        · rfl
        · simp [progress, find_cons]
        · rfl

theorem take_lines_eq (hdistinct : (backup.map Sysentry.key).Nodup) (lines : List (List Char)) (r : Reading) :
    match read_lines backup lines r with
    | none => ∃ r', take_lines backup lines (progress backup r) = (true, progress backup r')
    | some r' => take_lines backup lines (progress backup r) = (false, progress backup r') := by
  induction lines generalizing r with
  | nil => rfl
  | cons line rest ih =>
    rw [read_lines, take_lines, take_line_eq hdistinct]
    cases read_line backup line r with
    | none => exact ⟨r, rfl⟩
    | some r' => exact ih r'

theorem fill_root_map (root : List Char) (found : List Char → Option (List Char)) (backup : List Sysentry) :
    fill_root root (backup.map fun t => ⟨t.key, found t.key⟩) backup =
      backup.map fun t => ⟨t.key, some ((found t.key).getD (root ++ t.val))⟩ := by
  induction backup with
  | nil => rfl
  | cons t backup ih => rw [List.map_cons, fill_root, ih, List.map_cons]

theorem fill_defaults_map (value : Sysentry → Option (List Char)) (backup : List Sysentry) :
    fill_defaults (backup.map fun t => ⟨t.key, value t⟩) backup =
      backup.map fun t => { t with val := (value t).getD t.val } := by
  induction backup with
  | nil => rfl
  | cons t backup ih => rw [List.map_cons, fill_defaults, ih, List.map_cons]

/-- The update in place gives what the reading of the whole file gives. -/
theorem configure_sysfiles_eq {s : Sysfiles} (hkeys : s.catalog.map Sysentry.key = backup.map Sysentry.key)
    (hbackup : s.backup.getD s.catalog = backup) (hdistinct : (backup.map Sysentry.key).Nodup)
    (file : Option (List Char)) :
    configure_sysfiles file s = pwrapi.configure_sysfiles (file.map file_lines) s := by
  have hcleared : (s.catalog.map fun e => (⟨e.key, none⟩ : Entry)) = (progress backup {}).catalog := by
    have hmap := congrArg (List.map fun key => (⟨key, none⟩ : Entry)) hkeys
    rw [List.map_map, List.map_map] at hmap
    exact hmap
  have hdefaults (r : Reading) : fill_defaults (clear (progress backup r).catalog) backup = backup := by
    rw [progress, clear, List.map_map]
    have hfill := fill_defaults_map (fun _ => none) backup
    exact hfill.trans (List.map_id'' (fun _ => rfl) backup)
  have hstart : (⟨(progress backup {}).catalog, none⟩ : Progress) = progress backup {} := rfl
  simp only [configure_sysfiles, pwrapi.configure_sysfiles, hbackup, hcleared]
  congr 1
  cases file with
  | none => exact fill_defaults_map (fun t => Reading.find {} t.key) backup
  | some content =>
    have hlines := take_lines_eq hdistinct (file_lines content) {}
    simp only [Option.map_some, read_file, hstart]
    cases hread : read_lines backup (file_lines content) {} with
    | none =>
      rw [hread] at hlines
      obtain ⟨r, hr⟩ := hlines
      simp only [hr, if_true, hdefaults, Option.getD_none]
      exact (List.map_id'' (fun _ => rfl) backup).symm
    | some r =>
      rw [hread] at hlines
      simp only [hlines, Option.getD_some]
      cases hroot : r.root with
      | none =>
        rw [show (progress backup r).root = none from hroot]
        refine (fill_defaults_map (fun t => r.find t.key) backup).trans (List.map_congr_left fun t _ => ?_)
        rw [Reading.value, hroot]
        cases r.find t.key <;> rfl
      | some root =>
        rw [show (progress backup r).root = some root from hroot]
        dsimp only [progress]
        rw [fill_root_map]
        refine (fill_defaults_map _ backup).trans (List.map_congr_left fun t _ => ?_)
        rw [Reading.value, hroot]
        cases r.find t.key <;> rfl

end Refine

/-- A line is in error: it cannot be taken apart, its key is not in the catalog or has been
set before, or its value has not the format of the default. -/
inductive Faulty (builtin : List Sysentry) (before : List (List Char)) (line : List Char) : Prop where
  | malformed (hline : parse_line line = .malformed)
  | unknown (key val : List Char) (hline : parse_line line = .directive key val) (hkey : key ≠ chroot)
      (hunknown : key ∉ builtin.map Sysentry.key)
  | duplicate (key val : List Char) (hline : parse_line line = .directive key val) (hkey : key ≠ chroot)
      (hset : key ∈ before)
  | incompatible (key val : List Char) (hline : parse_line line = .directive key val) (hkey : key ≠ chroot)
      (t : Sysentry) (ht : t ∈ builtin) (hentry : t.key = key) (hformat : fmtmatch t.val val = false)

/-- The file is in error at some line. -/
def FileError (builtin : List Sysentry) (lines : List (List Char)) : Prop :=
  ∃ before line after, lines = before ++ line :: after ∧
    Faulty builtin ((overrides before).map Sysentry.key) line

/-- The value of an entry after a file without an error: its override if there is one, else
the default behind the last chroot if there is one, else the default. -/
structure Configured (lines : List (List Char)) (t : Sysentry) (val : List Char) : Prop where
  overridden : ∀ s ∈ overrides lines, s.key = t.key → val = s.val
  rooted : t.key ∉ (overrides lines).map Sysentry.key → ∀ root, (roots lines).getLast? = some root → val = root ++ t.val
  default : t.key ∉ (overrides lines).map Sysentry.key → roots lines = [] → val = t.val

section Errors

variable {builtin vals : List Sysentry} {keys keys' : List (List Char)} {line : List Char} {lines : List (List Char)}

theorem Faulty.mono (hkeys : keys ⊆ keys') (h : Faulty builtin keys line) : Faulty builtin keys' line := by
  cases h with
  | malformed hline => exact .malformed hline
  | unknown key val hline hkey hunknown => exact .unknown key val hline hkey hunknown
  | duplicate key val hline hkey hset => exact .duplicate key val hline hkey (hkeys hset)
  | incompatible key val hline hkey t ht hentry hformat =>
    exact .incompatible key val hline hkey t ht hentry hformat

/-- Only a line that sets a value, or one that cannot be taken apart, can be in error. -/
theorem not_faulty (hformed : parse_line line ≠ .malformed)
    (hnone : ∀ key val, parse_line line = .directive key val → key = chroot) : ¬Faulty builtin keys line := by
  intro h
  cases h with
  | malformed hline => exact hformed hline
  | unknown key val hline hkey _ => exact hkey (hnone key val hline)
  | duplicate key val hline hkey _ => exact hkey (hnone key val hline)
  | incompatible key val hline hkey _ _ _ _ => exact hkey (hnone key val hline)

theorem find_key (hdistinct : (builtin.map Sysentry.key).Nodup) {key : List Char} {t : Sysentry} :
    builtin.find? (fun t => decide (t.key = key)) = some t ↔ t ∈ builtin ∧ t.key = key := by
  constructor
  · intro hfind
    exact ⟨List.mem_of_find?_eq_some hfind, by simpa using List.find?_some hfind⟩
  · rintro ⟨ht, rfl⟩
    obtain ⟨u, hu⟩ := Option.isSome_iff_exists.mp
      (List.find?_isSome.mpr ⟨t, ht, by simp⟩ : (builtin.find? fun u => decide (u.key = t.key)).isSome = true)
    have hkey : u.key = t.key := by simpa using List.find?_some hu
    rw [hu, List.inj_on_of_nodup_map hdistinct (List.mem_of_find?_eq_some hu) ht hkey]

/-- A line that sets a value is in order when its key is there and free and the formats match. -/
theorem not_faulty_iff {key val : List Char} (hdistinct : (builtin.map Sysentry.key).Nodup)
    (hline : parse_line line = .directive key val) (hkey : key ≠ chroot) : ¬Faulty builtin keys line ↔
      (∃ t, builtin.find? (fun t => decide (t.key = key)) = some t ∧ fmtmatch t.val val = true) ∧ key ∉ keys := by
  constructor
  · intro h
    refine ⟨?_, fun hset => h (.duplicate key val hline hkey hset)⟩
    by_cases hknown : key ∈ builtin.map Sysentry.key
    · obtain ⟨t, ht, hentry⟩ := List.mem_map.mp hknown
      refine ⟨t, (find_key hdistinct).mpr ⟨ht, hentry⟩, ?_⟩
      by_contra hformat
      exact h (.incompatible key val hline hkey t ht hentry (Bool.not_eq_true _ ▸ hformat))
    · exact absurd (.unknown key val hline hkey hknown) h
  · rintro ⟨⟨t, hfind, hformat⟩, hfree⟩ h
    obtain ⟨ht, hentry⟩ := (find_key hdistinct).mp hfind
    cases h with
    | malformed hline' => cases hline.symm.trans hline'
    | unknown key' val' hline' _ hunknown =>
      cases hline.symm.trans hline'
      exact hunknown (hentry ▸ List.mem_map_of_mem ht)
    | duplicate key' val' hline' _ hset =>
      cases hline.symm.trans hline'
      exact hfree hset
    | incompatible key' val' hline' _ u hu hentry' hformat' =>
      cases hline.symm.trans hline'
      rw [List.inj_on_of_nodup_map hdistinct hu ht (hentry'.trans hentry.symm), hformat] at hformat'
      cases hformat'

/-- A property of the lines of a file, each after those before it, for the first line and the others. -/
theorem forall_split_cons {P : List (List Char) → List Char → Prop} {rest : List (List Char)} :
    (∀ before line' after, line :: rest = before ++ line' :: after → P before line') ↔
      P [] line ∧ ∀ before line' after, rest = before ++ line' :: after → P (line :: before) line' := by
  constructor
  · intro h
    refine ⟨h [] line rest rfl, fun before line' after hsplit => h (line :: before) line' after ?_⟩
    rw [hsplit, List.cons_append]
  · rintro ⟨hfirst, hrest⟩ before line' after hsplit
    cases before with
    | nil =>
      obtain ⟨rfl, _⟩ := List.cons.inj hsplit
      exact hfirst
    | cons first before =>
      obtain ⟨rfl, hrest'⟩ := List.cons.inj hsplit
      exact hrest before line' after hrest'

/-- What is accepted has no line in error. -/
theorem accepted_iff (hdistinct : (builtin.map Sysentry.key).Nodup) (hvals : (vals.map Sysentry.key).Nodup) :
    Accepted builtin vals lines ↔ ∀ before line after, lines = before ++ line :: after →
      ¬Faulty builtin (((overrides before).reverse ++ vals).map Sysentry.key) line := by
  induction lines generalizing vals with
  | nil =>
    refine iff_of_true ⟨by simp, by simp [overrides, directives], by simpa [overrides, directives] using hvals⟩ ?_
    intro before line after hsplit
    simp at hsplit
  | cons line rest ih =>
    have hoverrides (tail : List (List Char)) := overrides_cons line tail
    rw [forall_split_cons]
    cases hline : parse_line line with
    | ignored =>
      simp only [hline, List.nil_append] at hoverrides
      rw [accepted_cons_iff (by rw [hline]; simp) (hoverrides rest), ih hvals]
      simp only [hoverrides]
      exact (and_iff_right (not_faulty (by rw [hline]; simp) (by simp [hline]))).symm
    | malformed =>
      exact iff_of_false (fun h => h.formed line List.mem_cons_self hline) fun h => h.1 (.malformed hline)
    | directive key val =>
      simp only [hline] at hoverrides
      by_cases hkey : key = chroot
      · simp only [hkey, if_true, List.nil_append] at hoverrides hline
        rw [accepted_cons_iff (by rw [hline]; simp) (hoverrides rest), ih hvals]
        simp only [hoverrides]
        exact (and_iff_right (not_faulty (by rw [hline]; simp) (by simp [hline]))).symm
      · simp only [hkey, if_false, List.singleton_append] at hoverrides
        rw [accepted_override_iff (by rw [hline]; simp) (hoverrides rest), not_faulty_iff hdistinct hline hkey, and_assoc]
        refine and_congr_right fun _ => ?_
        simp only [hoverrides, List.reverse_cons, List.append_assoc, List.singleton_append]
        by_cases hset : key ∈ vals.map Sysentry.key
        · refine iff_of_false (fun h => ?_) fun h => h.1 (by simpa [overrides, directives] using hset)
          have hnodup := h.distinct
          rw [List.map_append, List.map_cons, List.nodup_append] at hnodup
          exact (List.nodup_cons.mp hnodup.2.1).1 hset
        · have hvals' : ((⟨key, val⟩ :: vals).map Sysentry.key).Nodup := List.nodup_cons.mpr ⟨hset, hvals⟩
          rw [ih hvals']
          exact (and_iff_right (by simpa [overrides, directives] using hset)).symm

theorem not_accepted_iff (hdistinct : (builtin.map Sysentry.key).Nodup) :
    ¬Accepted builtin [] lines ↔ FileError builtin lines := by
  rw [@accepted_iff builtin [] lines hdistinct List.nodup_nil]
  push Not
  refine exists₃_congr fun before line after => and_congr_right fun _ => ?_
  rw [List.append_nil, List.map_reverse]
  exact ⟨.mono (List.reverse_subset.mpr (List.Subset.refl _)), .mono (List.subset_reverse.mpr (List.Subset.refl _))⟩

end Errors

section Runs

variable {builtin : List Sysentry} {lines : List (List Char)} {t : Sysentry}

/-- The value that the file gives an entry, where no line is in error. -/
theorem configured_value (haccepted : Accepted builtin [] lines) (t : Sysentry) :
    Configured lines t (Reading.value ⟨(overrides lines).reverse, (roots lines).getLast?⟩ t) := by
  have hdistinct : ((overrides lines).map Sysentry.key).Nodup := by
    have hnodup := haccepted.distinct
    rwa [List.append_nil, List.map_reverse, List.nodup_reverse] at hnodup
  have hunset (hkey : t.key ∉ (overrides lines).map Sysentry.key) :
      Reading.find ⟨(overrides lines).reverse, (roots lines).getLast?⟩ t.key = none := by
    rw [← Option.not_isSome_iff_eq_none, find_isSome_iff]
    simpa using hkey
  refine ⟨fun s hs hkey => ?_, fun hkey root hroot => ?_, fun hkey hroots => ?_⟩
  · have hset : (Reading.find ⟨(overrides lines).reverse, (roots lines).getLast?⟩ t.key).isSome = true := by
      rw [find_isSome_iff, List.map_reverse, List.mem_reverse, ← hkey]
      exact List.mem_map_of_mem hs
    obtain ⟨val, hval⟩ := Option.isSome_iff_exists.mp hset
    obtain ⟨u, hu, rfl⟩ := Option.map_eq_some_iff.mp hval
    have hukey : u.key = t.key := by simpa using List.find?_some hu
    have hmem : u ∈ overrides lines := List.mem_reverse.mp (List.mem_of_find?_eq_some hu)
    rw [Reading.value, hval, List.inj_on_of_nodup_map hdistinct hmem hs (hukey.trans hkey.symm)]
  · rw [Reading.value, hunset hkey, hroot]
  · rw [Reading.value, hunset hkey, hroots]
    rfl

/-- The keys of the catalog stay those it was built with. -/
structure Keeps (builtin : List Sysentry) (s : Sysfiles) : Prop where
  backup : s.backup.getD s.catalog = builtin
  keys : s.catalog.map Sysentry.key = builtin.map Sysentry.key

theorem Keeps.configure_sysfiles (hdistinct : (builtin.map Sysentry.key).Nodup) {s : Sysfiles}
    (hs : Keeps builtin s) (file : Option (List Char)) : Keeps builtin (configure_sysfiles file s) := by
  rw [configure_sysfiles_eq hs.keys hs.backup hdistinct]
  refine ⟨hs.backup, ?_⟩
  simp only [pwrapi.configure_sysfiles, hs.backup, List.map_map]
  rfl

/-- What one call leaves of the catalog. -/
theorem configure_sysfiles_spec (hdistinct : (builtin.map Sysentry.key).Nodup) {s : Sysfiles} (hs : Keeps builtin s)
    (content : List Char) :
    (FileError builtin (file_lines content) → (configure_sysfiles (some content) s).catalog = builtin) ∧
      (¬FileError builtin (file_lines content) → List.Forall₂ (fun t e => e.key = t.key ∧
        Configured (file_lines content) t e.val) builtin (configure_sysfiles (some content) s).catalog) := by
  rw [configure_sysfiles_eq hs.keys hs.backup hdistinct, ← not_accepted_iff hdistinct, not_not]
  simp only [Option.map_some, pwrapi.configure_sysfiles, hs.backup]
  constructor
  · intro herror
    have hread : read_lines builtin (file_lines content) {} = none := by
      rw [Option.eq_none_iff_forall_ne_some]
      intro r hr
      exact herror ((read_lines_iff (r := {}) List.nodup_nil).mp hr).1
    rw [hread, Option.getD_none]
    exact List.map_id'' (fun _ => rfl) builtin
  · intro haccepted
    have hread := (read_lines_iff (r := {}) List.nodup_nil).mpr ⟨haccepted, rfl⟩
    simp only [List.append_nil, Option.or_none] at hread
    rw [hread, Option.getD_some, List.forall₂_map_right_iff, List.forall₂_same]
    exact fun t _ => ⟨rfl, configured_value haccepted t⟩

/-- In every run of calls, a file that is in error at any line leaves the defaults, and any
other file leaves every entry with its override, or with the default behind the last chroot. -/
theorem configure_sysfiles_all_or_nothing (hdistinct : (builtin.map Sysentry.key).Nodup)
    {run : List (Option (List Char) × Sysfiles)}
    (hrun : EachStep (fun s file s' => s' = configure_sysfiles file s) { catalog := builtin } run) :
    EachStep (fun _ file s' => ∀ content ∈ file,
      (FileError builtin (file_lines content) → s'.catalog = builtin) ∧
        (¬FileError builtin (file_lines content) → List.Forall₂ (fun t e => e.key = t.key ∧
          Configured (file_lines content) t e.val) builtin s'.catalog)) { catalog := builtin } run := by
  have hstart : Keeps builtin { catalog := builtin } := ⟨rfl, rfl⟩
  refine hrun.of_invariant hstart ?_
  rintro s file s' rfl hs
  refine ⟨hs.configure_sysfiles hdistinct file, fun content hcontent => ?_⟩
  rw [Option.mem_def.mp hcontent]
  exact configure_sysfiles_spec hdistinct hs content

def two_paths : List Sysentry :=
  [⟨['m', 's', 'r'], ['/', 'd', '/', '%', 'd']⟩, ⟨['h', 'z'], ['/', 's']⟩]

/-- One path is set before the chroot. -/
def set_hz : List Char :=
  ['h', 'z', '=', '/', 't', '\n', 'c', 'h', 'r', 'o', 'o', 't', ' ', '=', ' ', '/', 'm', '/', '\n']

/-- The format takes another number than the default. -/
def other_msr : List Char := ['m', 's', 'r', '=', '/', 'd', '/', '%', 'u']

def two_calls : List (Option (List Char) × Sysfiles) :=
  let first := configure_sysfiles (some set_hz) { catalog := two_paths }
  [(some set_hz, first), (some other_msr, configure_sysfiles (some other_msr) first)]

theorem configure_sysfiles_two_calls :
    two_calls.map (fun x => x.2.catalog.map Sysentry.val) =
      [[['/', 'm', '/', 'd', '/', '%', 'd'], ['/', 't']], [['/', 'd', '/', '%', 'd'], ['/', 's']]] ∧
    (final { catalog := two_paths } two_calls).catalog = two_paths := by
  refine ⟨by decide +kernel, ?_⟩
  have hsteps := @configure_sysfiles_all_or_nothing two_paths (by decide) two_calls ⟨rfl, rfl, trivial⟩
  have herror : FileError two_paths (file_lines other_msr) :=
    ⟨[], other_msr, [], by decide, .incompatible ['m', 's', 'r'] ['/', 'd', '/', '%', 'u'] (by decide) (by decide)
      ⟨['m', 's', 'r'], ['/', 'd', '/', '%', 'd']⟩ List.mem_cons_self rfl (by decide +kernel)⟩
  exact (hsteps.2.1 other_msr rfl).1 herror

end Runs

end Catalog

end pwrapi
