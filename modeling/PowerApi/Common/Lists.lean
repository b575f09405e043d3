import PowerApi.Common.Processes

open Words

namespace pwrapi.permissions

open PermissionsFile

section Lists

variable {content : List Char} {uid : UInt32} {set : Finset UInt32}

/-- The file ends in a newline, if it is not empty. -/
def NewlineTerminated (content : List Char) : Prop := content.getLast?.all (· = '\n')

instance (content : List Char) : Decidable (NewlineTerminated content) :=
  inferInstanceAs (Decidable (_ = true))

/-- A list of uids that can be appended to, and the set that it denotes. -/
structure Lists (content : List Char) (set : Finset UInt32) : Prop where
  wellFormed : WellFormed content
  last_word : last_word isspace content = []
  uids : uids content = set

theorem last_word_newline (s : List Char) : Words.last_word isspace (s ++ ['\n']) = [] :=
  List.rtakeWhile_concat_neg _ _ _ (by decide)

theorem NewlineTerminated.last_word (h : NewlineTerminated content) :
    Words.last_word isspace content = [] := by
  cases content using List.reverseRecOn with
  | nil => rfl
  | append_singleton s c =>
    obtain rfl : c = '\n' := by simpa [NewlineTerminated] using h
    exact last_word_newline s

/-- The new uid stands behind the others, whether or not it is among them. -/
theorem Lists.append (h : Lists content set) : Lists (content ++ fprintf_uint uid) (insert uid set) where
  wellFormed := wellFormed_add h.wellFormed (.inl h.last_word)
  last_word := by rw [fprintf_uint, ← List.append_assoc, last_word_newline]
  uids := by
    ext w
    rw [← h.uids]
    simp [mem_uids, uid_list_add, uid_list_before h.last_word, h.last_word, uid_of_word_digits, or_comm]

theorem last_word_printed (uids : List UInt32) :
    Words.last_word isspace (uids.flatMap fprintf_uint) = [] := by
  cases uids using List.reverseRecOn with
  | nil => rfl
  | append_singleton uids uid =>
    rw [List.flatMap_append, List.flatMap_singleton, fprintf_uint, ← List.append_assoc, last_word_newline]

theorem Lists.delete (h : Lists content set) :
    Lists (delete_loop uid content.length content) (set.erase uid) := by
  rw [delete_loop_eq, read_uints_of_wellFormed h.wellFormed (Nat.le_refl _)]
  refine ⟨wellFormed_printed _, last_word_printed _, ?_⟩
  ext w
  simp only [mem_uids, uid_list_printed, ← h.uids, Finset.mem_erase, List.mem_filter, decide_eq_true_eq]
  exact and_comm.trans (and_congr_left' ne_comm)

/-- The search of a list tells whether the uid is in the set. -/
theorem search_loop_zero_iff (h : WellFormed content) :
    search_loop uid content.length content = 0 ↔ uid ∈ permissions.uids content := by
  rw [search_loop_eq, read_uints_of_wellFormed h (Nat.le_refl _), mem_uids]
  split <;> simp [*]

end Lists

section Sound

variable {files files' : Inodes} {permitted permitted' ever always : Finset UInt32} {progress : Progress}

/-- The temporary file lists a set. -/
def Copied (files : Inodes) (set : Finset UInt32) : Prop :=
  ∃ ino, files.dir TEMP_PERMISSIONS_FILE = some ino ∧ Lists (files.content ino) set

/-- What the files that a process has open are, and hold. A file that is searched may have been
replaced since, but it is no temporary file, and lists the uids that were permitted all along. -/
def Sound (files : Inodes) (permitted ever always : Finset UInt32) : Progress → Prop
  | .entered _ _ => always ⊆ permitted ∧ permitted ⊆ ever
  | .searching function uid ino =>
    ino < files.next ∧ files.dir TEMP_PERMISSIONS_FILE ≠ some ino ∧ WellFormed (files.content ino) ∧
    (function ≠ .add_uid → uid ∈ always → uid ∈ uids (files.content ino)) ∧
    (uid ∈ uids (files.content ino) → uid ∈ ever)
  | .copying _ _ fp2 => files.dir TEMP_PERMISSIONS_FILE = some fp2 ∧ files.content fp2 = []
  | .copied uid => Copied files (permitted.erase uid)
  | .removed uid => Copied files (permitted.erase uid) ∧
    ∀ ino, files.dir CURR_PERMISSIONS_FILE = some ino → files.content ino = []
  | _ => True

/-- A file that may be searched stays one, and only lists more of the uids permitted. -/
structure Extends (files files' : Inodes) (permitted' : Finset UInt32) : Prop where
  next : files.next ≤ files'.next
  searched : ∀ ino < files.next, files.dir TEMP_PERMISSIONS_FILE ≠ some ino →
    files'.dir TEMP_PERMISSIONS_FILE ≠ some ino ∧
    (files'.content ino = files.content ino ∨ ∃ set uid, uid ∈ permitted' ∧
      Lists (files.content ino) set ∧ files'.content ino = files.content ino ++ fprintf_uint uid)

/-- A step leaves a deletion the temporary file, the set that it copied, and no list in the place of
the file that it removed. -/
structure Spares (files files' : Inodes) (permitted permitted' : Finset UInt32) (progress : Progress) :
    Prop where
  temp : progress.temp_in_use → ∀ ino, files.dir TEMP_PERMISSIONS_FILE = some ino →
    files'.dir TEMP_PERMISSIONS_FILE = some ino ∧ files'.content ino = files.content ino
  permitted : progress.copy_made → permitted' = permitted
  current : progress.between → ∀ ino, files'.dir CURR_PERMISSIONS_FILE = some ino →
    files'.content ino = [] ∨
    files.dir CURR_PERMISSIONS_FILE = some ino ∧ files'.content ino = files.content ino

theorem spares_refl (files : Inodes) (permitted : Finset UInt32) (progress : Progress) :
    Spares files files permitted permitted progress :=
  ⟨fun _ _ htemp => ⟨htemp, rfl⟩, fun _ => rfl, fun _ _ hcurr => .inr ⟨hcurr, rfl⟩⟩

theorem spares_of_not_in_use (files files' : Inodes) (permitted permitted' : Finset UInt32)
    (h : progress.temp_in_use = false) : Spares files files' permitted permitted' progress := by
  cases progress with
  | copying | copied | removed => cases h
  | _ => exact ⟨nofun, nofun, nofun⟩

theorem Copied.spared {set : Finset UInt32} (h : Copied files set)
    (htemp : ∀ ino, files.dir TEMP_PERMISSIONS_FILE = some ino →
      files'.dir TEMP_PERMISSIONS_FILE = some ino ∧ files'.content ino = files.content ino) :
    Copied files' set := by
  obtain ⟨ino, hino, hlists⟩ := h
  obtain ⟨hino', hcontent⟩ := htemp ino hino
  exact ⟨ino, hino', hcontent ▸ hlists⟩

/-- What a process relies on outlasts the steps of the others that do not disturb it. -/
theorem Sound.spared (h : Sound files permitted ever always progress)
    (hextends : Extends files files' permitted') (hspares : Spares files files' permitted permitted' progress) :
    Sound files' permitted' (ever ∪ permitted') (always ∩ permitted') progress := by
  cases progress with
  | outside | not_found | appending | found | opened => trivial
  | entered => exact ⟨Finset.inter_subset_right, Finset.subset_union_right⟩
  | searching function uid ino =>
    obtain ⟨hold, htemp, hwf, halways, hever⟩ := h
    obtain ⟨htemp', hcontent⟩ := hextends.searched ino hold htemp
    refine ⟨hold.trans_le hextends.next, htemp', ?_⟩
    rcases hcontent with hsame | ⟨set, added, hadded, hlists, happended⟩
    · rw [hsame]
      exact ⟨hwf, fun hcheck hmem => halways hcheck (Finset.mem_inter.mp hmem).1,
        fun hmem => Finset.mem_union_left _ (hever hmem)⟩
    · have hlonger : Lists (files.content ino ++ fprintf_uint added) (insert added set) := hlists.append
      rw [← happended] at hlonger
      refine ⟨hlonger.wellFormed, ?_⟩
      rw [hlonger.uids, ← hlists.uids]
      refine ⟨fun hcheck hmem =>
        Finset.mem_insert_of_mem (halways hcheck (Finset.mem_inter.mp hmem).1), fun hmem => ?_⟩
      rcases Finset.mem_insert.mp hmem with rfl | hmem
      · exact Finset.mem_union_right _ hadded
      · exact Finset.mem_union_left _ (hever hmem)
  | copying uid fp1 fp2 =>
    obtain ⟨htemp, hempty⟩ := h
    obtain ⟨htemp', hcontent⟩ := hspares.temp rfl fp2 htemp
    exact ⟨htemp', hcontent.trans hempty⟩
  | copied uid =>
    obtain rfl := hspares.permitted rfl
    exact Copied.spared h (hspares.temp rfl)
  | removed uid =>
    obtain rfl := hspares.permitted rfl
    refine ⟨h.1.spared (hspares.temp rfl), fun ino hino => ?_⟩
    rcases hspares.current rfl ino hino with hempty | ⟨hcurr, hsame⟩
    · exact hempty
    · exact hsame.trans (h.2 ino hcurr)

end Sound

section Files

variable {files : Inodes} {permitted : Finset UInt32} {ino : ℕ}

theorem Extends.refl (files : Inodes) (permitted : Finset UInt32) : Extends files files permitted :=
  ⟨Nat.le_refl _, fun _ _ htemp => ⟨htemp, .inl rfl⟩⟩

theorem extends_append {set : Finset UInt32} {uid : UInt32} (hlists : Lists (files.content ino) set)
    (huid : uid ∈ permitted) : Extends files (files.append ino (fprintf_uint uid)) permitted := by
  refine ⟨Nat.le_refl _, fun i _ htemp => ⟨htemp, ?_⟩⟩
  by_cases hi : i = ino
  · subst hi
    exact .inr ⟨set, uid, huid, hlists, Function.update_self ..⟩
  · exact .inl (Function.update_of_ne hi ..)

theorem extends_write (htemp : files.dir TEMP_PERMISSIONS_FILE = some ino) (s : List Char) :
    Extends files (files.write ino s) permitted := by
  refine ⟨Nat.le_refl _, fun i _ hi => ⟨hi, .inl (Function.update_of_ne ?_ ..)⟩⟩
  rintro rfl
  exact hi htemp

theorem extends_remove (permitted : Finset UInt32) :
    Extends files (files.remove CURR_PERMISSIONS_FILE) permitted :=
  ⟨Nat.le_refl _, fun _ _ htemp => ⟨htemp, .inl rfl⟩⟩

theorem extends_rename (permitted : Finset UInt32) :
    Extends files (files.rename TEMP_PERMISSIONS_FILE CURR_PERMISSIONS_FILE) permitted := by
  refine ⟨Nat.le_refl _, fun _ _ _ => ⟨?_, .inl rfl⟩⟩
  rw [Inodes.rename_dir, Function.update_self]
  exact (Option.some_ne_none _).symm

/-- Opening the temporary file leaves an empty one that no process has searched. -/
theorem fopen_write_spec (files : Inodes) (permitted : Finset UInt32)
    (hold : ∀ path ino, files.dir path = some ino → ino < files.next)
    (hdistinct : ∀ ino, files.dir CURR_PERMISSIONS_FILE = some ino →
      files.dir TEMP_PERMISSIONS_FILE ≠ some ino) :
    ∃ fp2 files', files.fopen_write TEMP_PERMISSIONS_FILE = (fp2, files') ∧
      files'.dir TEMP_PERMISSIONS_FILE = some fp2 ∧ files'.content fp2 = [] ∧
      (∀ path, path ≠ TEMP_PERMISSIONS_FILE → files'.dir path = files.dir path) ∧
      (∀ path ino, files'.dir path = some ino → ino < files'.next) ∧
      (∀ ino, files'.dir CURR_PERMISSIONS_FILE = some ino →
        ino ≠ fp2 ∧ files'.content ino = files.content ino) ∧
      Extends files files' permitted := by
  unfold Inodes.fopen_write Inodes.fopen_append
  cases htemp : files.dir TEMP_PERMISSIONS_FILE with
  | some fp2 =>
    refine ⟨_, _, rfl, htemp, Function.update_self .., fun _ _ => rfl, hold, fun ino hino => ?_,
      Nat.le_refl _, fun ino hlt hne => ⟨hne, .inl (Function.update_of_ne ?_ ..)⟩⟩
    · have hne : ino ≠ fp2 := by
        rintro rfl
        exact hdistinct ino hino htemp
      exact ⟨hne, Function.update_of_ne hne ..⟩
    · rintro rfl
      exact hne htemp
  | none =>
    have hcontent : ∀ ino < files.next, Function.update (Function.update files.content files.next [])
        files.next [] ino = files.content ino := by
      intro ino hlt
      rw [Function.update_of_ne hlt.ne, Function.update_of_ne hlt.ne]
    refine ⟨_, _, rfl, by simp, by simp, fun path hpath => by simp [hpath], fun path ino hino => ?_,
      fun ino hino => ?_, Nat.le_succ _, fun ino hlt _ => ⟨?_, .inl (hcontent ino hlt)⟩⟩
    · simp only [Function.update_apply] at hino
      split_ifs at hino
      · cases hino
        exact Nat.lt_succ_self _
      · exact (hold path ino hino).trans (Nat.lt_succ_self _)
    · have hlt : ino < files.next := hold _ ino hino
      exact ⟨hlt.ne, hcontent ino hlt⟩
    · simp only [Function.update_self, ne_eq, Option.some.injEq]
      exact hlt.ne'

/-- Opening the current file to append to it where there is none leaves an empty one. -/
theorem fopen_append_spec (files : Inodes) (permitted : Finset UInt32)
    (hold : ∀ path ino, files.dir path = some ino → ino < files.next)
    (hcurr : files.dir CURR_PERMISSIONS_FILE = none) :
    ∃ ino files', files.fopen_append CURR_PERMISSIONS_FILE = (ino, files') ∧
      (∀ path ino, files'.dir path = some ino → ino < files'.next) ∧
      (∀ ino, files'.dir CURR_PERMISSIONS_FILE = some ino → files'.dir TEMP_PERMISSIONS_FILE ≠ some ino) ∧
      Extends files files' permitted ∧ ∀ progress, Spares files files' permitted permitted progress := by
  have hcontent : ∀ ino < files.next,
      Function.update files.content files.next [] ino = files.content ino := fun ino hlt =>
    Function.update_of_ne hlt.ne ..
  simp only [Inodes.fopen_append, hcurr]
  refine ⟨_, _, rfl, fun path ino hino => ?_, fun ino hino htemp => ?_,
    ⟨Nat.le_succ _, fun ino hlt htemp => ⟨by simpa using htemp, .inl (hcontent ino hlt)⟩⟩,
    fun progress => ⟨fun _ ino hino => ?_, fun _ => rfl, fun _ ino hino => .inl ?_⟩⟩
  · simp only [Function.update_apply] at hino
    split_ifs at hino
    · cases hino
      exact Nat.lt_succ_self _
    · exact (hold path ino hino).trans (Nat.lt_succ_self _)
  · simp only [Function.update_self, Option.some.injEq] at hino
    have hlt := hold TEMP_PERMISSIONS_FILE ino (by simpa using htemp)
    exact hlt.ne' hino
  · exact ⟨by simpa using hino, hcontent ino (hold _ ino hino)⟩
  · simp only [Function.update_self, Option.some.injEq] at hino
    rw [← hino]
    exact Function.update_self ..

end Files

end pwrapi.permissions
