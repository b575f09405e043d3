import PowerApi.Common.Processes

namespace pwrapi.permissions

open PermissionsFile

variable {files : Inodes} {path : PermissionsFile} {ino : ℕ}

theorem Inodes.disk_apply (files : Inodes) (path : PermissionsFile) :
    files.disk path = (files.dir path).map files.content := rfl

/-- A file holds what is stored for its inode. -/
theorem Inodes.Linked.disk_update (h : files.Linked) (hpath : files.dir path = some ino)
    (content : List Char) :
    Inodes.disk { files with content := Function.update files.content ino content } =
      files.disk.write path content := by
  funext path'
  by_cases hpath' : path' = path
  · subst hpath'
    simp [Inodes.disk_apply, Disk.write, hpath]
  · rw [Disk.write, Function.update_of_ne hpath', Inodes.disk_apply, Inodes.disk_apply]
    refine Option.map_congr fun i hi => Function.update_of_ne ?_ ..
    rintro rfl
    exact hpath' (h.distinct path' path i hi hpath)

/-- Opening a file that is not there creates an empty one, and changes no other. -/
theorem Inodes.Linked.fopen_append (h : files.Linked) (path : PermissionsFile) :
    ∃ ino files', files.fopen_append path = (ino, files') ∧ files'.Linked ∧ files'.dir path = some ino ∧
      files'.disk = files.disk.write path ((files.disk path).getD []) := by
  unfold Inodes.fopen_append
  cases hpath : files.dir path with
  | some ino =>
    refine ⟨ino, files, rfl, h, hpath, ?_⟩
    rw [Disk.write, Inodes.disk_apply, hpath, Option.map_some, Option.getD_some]
    refine (Function.update_eq_self_iff.mpr ?_).symm
    rw [Inodes.disk_apply, hpath, Option.map_some]
  | none =>
    have hnew : ∀ path' ino, files.dir path' = some ino → ino ≠ files.next := fun path' ino hino =>
      (h.old path' ino hino).ne
    refine ⟨_, _, rfl, ⟨fun path' i hi => ?_, fun p p' i hp hp' => ?_⟩, Function.update_self .., ?_⟩
    · simp only [Function.update_apply] at hi
      split_ifs at hi
      · cases hi
        exact Nat.lt_succ_self _
      · exact (h.old path' i hi).trans (Nat.lt_succ_self _)
    · simp only [Function.update_apply] at hp hp'
      split_ifs at hp hp' with hl hr hr
      · rw [hl, hr]
      · cases hp
        exact absurd rfl (hnew _ _ hp')
      · cases hp'
        exact absurd rfl (hnew _ _ hp)
      · exact h.distinct p p' i hp hp'
    · funext path'
      by_cases hpath' : path' = path
      · subst hpath'
        simp [Inodes.disk_apply, Disk.write, hpath]
      · rw [Disk.write, Function.update_of_ne hpath', Inodes.disk_apply]
        show Option.map (Function.update files.content files.next [])
          (Function.update files.dir path (some files.next) path') = _
        rw [Function.update_of_ne hpath']
        exact Option.map_congr fun i hi => Function.update_of_ne (hnew path' i hi) ..

/-- What is written to a file that was just opened with `"a"` is added to what it held. -/
theorem Inodes.Linked.append_disk (h : files.Linked) (path : PermissionsFile) (s : List Char) :
    ∃ ino files', files.fopen_append path = (ino, files') ∧
      (files'.append ino s).disk = files.disk.write path ((files.disk path).getD [] ++ s) := by
  obtain ⟨ino, files', heq, hlinked, hino, hdisk⟩ := h.fopen_append path
  have hcontent : files'.content ino = (files.disk path).getD [] := by
    have hheld : files'.disk path = some ((files.disk path).getD []) := by
      rw [hdisk, Disk.write, Function.update_self]
    rw [Inodes.disk_apply, hino, Option.map_some] at hheld
    exact Option.some.inj hheld
  refine ⟨ino, files', heq, ?_⟩
  rw [Inodes.append, hlinked.disk_update hino, hdisk, hcontent, Disk.write, Disk.write, Disk.write,
    Function.update_idem]

/-- What is written to a file that was just opened with `"w"` is what it holds. -/
theorem Inodes.Linked.write_disk (h : files.Linked) (path : PermissionsFile) :
    ∃ ino files', files.fopen_write path = (ino, files') ∧ files'.dir path = some ino ∧
      (∀ path', path' ≠ path → files'.dir path' = files.dir path' ∧ files'.disk path' = files.disk path') ∧
      ∀ s, (files'.write ino s).disk = files.disk.write path s := by
  obtain ⟨ino, opened, heq, hlinked, hino, hdisk⟩ := h.fopen_append path
  refine ⟨ino, { opened with content := Function.update opened.content ino [] }, ?_, hino,
    fun path' hpath' => ⟨?_, ?_⟩, fun s => ?_⟩
  · rw [Inodes.fopen_write, heq]
  · unfold Inodes.fopen_append at heq
    split at heq
    · cases heq
      rfl
    · cases heq
      exact Function.update_of_ne hpath' ..
  · rw [hlinked.disk_update hino, hdisk, Disk.write, Function.update_of_ne hpath', Disk.write,
      Function.update_of_ne hpath']
  · have hwritten : Inodes.write ino s { opened with content := Function.update opened.content ino [] } =
        { opened with content := Function.update opened.content ino s } := by
      simp [Inodes.write]
    rw [hwritten, hlinked.disk_update hino, hdisk, Disk.write, Disk.write, Disk.write, Function.update_idem]

theorem Inodes.remove_disk (files : Inodes) (path : PermissionsFile) :
    (files.remove path).disk = Function.update files.disk path none := by
  funext path'
  by_cases hpath : path' = path
  · subst hpath
    simp [Inodes.disk_apply, Inodes.remove_dir]
  · simp [Inodes.disk_apply, Inodes.remove, hpath]

theorem Inodes.rename_disk (files : Inodes) (path path' : PermissionsFile) :
    (files.rename path path').disk =
      Function.update (Function.update files.disk path' (files.disk path)) path none := by
  funext q
  by_cases hq : q = path
  · subst hq
    simp [Inodes.disk_apply, Inodes.rename_dir]
  · by_cases hq' : q = path'
    · subst hq'
      simp [Inodes.disk_apply, Inodes.rename, hq]
    · simp [Inodes.disk_apply, Inodes.rename, hq, hq']

/-- The rest of a function of a process that is alone, of at most `fuel` operations, all of which
succeed: what it returns, and the files behind it. -/
def complete : ℕ → Progress → Inodes → Option (Int × Disk)
  | 0, _, _ => none
  | fuel + 1, progress, files =>
    match advance true files progress with
    | ((some retval, _), files) => some (retval, files.disk)
    | ((none, progress), files) => complete fuel progress files

def UidFunction.call : UidFunction → UInt32 → PermissionsCall
  | .check, uid => .check uid
  | .add_uid, uid => .add_uid uid
  | .del_uid, uid => .del_uid uid

theorem complete_of_returns {progress progress' : Progress} {files' : Inodes} {retval : Int}
    (hadvance : advance true files progress = ((some retval, progress'), files')) (fuel : ℕ) :
    complete (fuel + 1) progress files = some (retval, files'.disk) := by
  rw [complete, hadvance]

theorem complete_of_goes_on {progress progress' : Progress} {files' : Inodes}
    (hadvance : advance true files progress = ((none, progress'), files')) (fuel : ℕ) :
    complete (fuel + 1) progress files = complete fuel progress' files' := by
  rw [complete, hadvance]

theorem complete_not_found (h : files.Linked) (uid : UInt32) (fuel : ℕ) :
    complete (fuel + 2) (.not_found uid) files = some (0, files.disk.write CURR_PERMISSIONS_FILE
      ((files.disk CURR_PERMISSIONS_FILE).getD [] ++ fprintf_uint uid)) := by
  obtain ⟨ino, files', heq, hdisk⟩ := h.append_disk CURR_PERMISSIONS_FILE (fprintf_uint uid)
  simp only [complete, advance, heq, if_true, hdisk]

theorem complete_found (h : files.Linked) (hino : files.dir CURR_PERMISSIONS_FILE = some ino)
    (uid : UInt32) (fuel : ℕ) :
    complete (fuel + 5) (.found uid) files =
      let disk := files.disk.write TEMP_PERMISSIONS_FILE
        (delete_loop uid (files.content ino).length (files.content ino))
      let disk := Function.update disk CURR_PERMISSIONS_FILE (disk TEMP_PERMISSIONS_FILE)
      some (0, Function.update disk TEMP_PERMISSIONS_FILE none) := by
  obtain ⟨fp2, files', heq, htemp, hsame, hdisk⟩ := h.write_disk TEMP_PERMISSIONS_FILE
  obtain ⟨hdir, hheld⟩ := hsame CURR_PERMISSIONS_FILE (by decide)
  have hcontent : files'.content ino = files.content ino := by
    rw [Inodes.disk_apply, Inodes.disk_apply, hdir, hino, Option.map_some, Option.map_some] at hheld
    exact Option.some.inj hheld
  have hcurr : files'.dir CURR_PERMISSIONS_FILE ≠ none := by simp [hdir, hino]
  simp only [complete, advance, hino, heq, if_true, hcontent, Inodes.write_dir, hcurr, true_and, ne_eq,
    not_false_eq_true, Inodes.remove_dir, Function.update_of_ne (show TEMP_PERMISSIONS_FILE ≠
      CURR_PERMISSIONS_FILE by decide), htemp, reduceCtorEq, Inodes.rename_disk, Inodes.remove_disk, hdisk,
    Function.update_idem]

/-- A function that runs alone does what its sequential counterpart does to the files. -/
theorem complete_eq_perform (h : files.Linked) (function : UidFunction) (uid : UInt32) :
    complete 7 (.entered function uid) files = some (perform (function.call uid) files.disk) := by
  have hdisk : files.disk CURR_PERMISSIONS_FILE = (files.dir CURR_PERMISSIONS_FILE).map files.content := rfl
  cases hcurr : files.dir CURR_PERMISSIONS_FILE with
  | none =>
    rw [hcurr, Option.map_none] at hdisk
    have hsearch : file_search_uint CURR_PERMISSIONS_FILE uid files.disk = 2 := by
      simp only [file_search_uint, hdisk]
    have hadvance : advance true files (.entered function uid) = (after_search function uid 2, files) := by
      simp only [advance, hcurr]
    cases function with
    | check =>
      rw [complete_of_returns hadvance]
      simp only [UidFunction.call, perform, check_permissions_file, hsearch]
    | add_uid =>
      rw [complete_of_goes_on hadvance, complete_not_found h]
      simp [UidFunction.call, perform, add_uid_permissions_file, hsearch]
    | del_uid =>
      rw [complete_of_returns hadvance]
      simp [UidFunction.call, perform, del_uid_permissions_file, hsearch]
  | some ino =>
    rw [hcurr, Option.map_some] at hdisk
    have hopen : advance true files (.entered function uid) = ((none, .searching function uid ino), files) := by
      simp only [advance, hcurr, if_true]
    have hsearched : advance true files (.searching function uid ino) =
        (after_search function uid (file_search_uint CURR_PERMISSIONS_FILE uid files.disk), files) := by
      simp only [advance, file_search_uint, hdisk]
    rw [complete_of_goes_on hopen]
    by_cases hfound : file_search_uint CURR_PERMISSIONS_FILE uid files.disk = 0
    · rw [hfound] at hsearched
      cases function with
      | check =>
        rw [complete_of_returns hsearched]
        simp only [UidFunction.call, perform, check_permissions_file, hfound]
      | add_uid =>
        rw [complete_of_returns hsearched]
        simp [UidFunction.call, perform, add_uid_permissions_file, hfound]
      | del_uid =>
        rw [complete_of_goes_on hsearched, complete_found h hcurr]
        simp [UidFunction.call, perform, del_uid_permissions_file, hfound, hdisk]
    · cases function with
      | check =>
        rw [complete_of_returns hsearched]
        simp only [UidFunction.call, perform, check_permissions_file]
      | add_uid =>
        simp only [after_search, if_neg hfound] at hsearched
        rw [complete_of_goes_on hsearched, complete_not_found h]
        simp [UidFunction.call, perform, add_uid_permissions_file, hfound]
      | del_uid =>
        simp only [after_search, ne_eq, hfound, not_false_eq_true, if_true] at hsearched
        rw [complete_of_returns hsearched]
        simp [UidFunction.call, perform, del_uid_permissions_file, hfound]

end pwrapi.permissions
