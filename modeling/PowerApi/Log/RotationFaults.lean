import PowerApi.Lib.CString
import PowerApi.Lib.Directory

open CString Directory

namespace pwrapi.log

abbrev PATH_MAX : ℕ := 4096

/-- The conversion `%d` of a number that is not negative. -/
def print_d (n : ℕ) : List Char := Nat.toDigits 10 n

/-- `pmlog_path`. -/
def pmlog_path (siz : ℕ) (pth : List Char) (N : ℕ) : List Char :=
  if N = 0 then snprintf siz pth else snprintf siz (pth ++ '.' :: print_d N)

/-- Which operations on files fail: the first `unlink`, the `rename` of a file by its number, the
`open` of the new log file. -/
structure FileFaults where
  unlink : Bool := false
  rename : ℕ → Bool := fun _ => false
  creat : Bool := false

/-- The files by path, each an inode, their sizes, and the inode of the log file that the write thread
has open. -/
structure LogPaths where
  dir : List Char → Option ℕ
  size : ℕ → ℕ
  logino : Option ℕ
  rotations : ℕ

/-- `_thr_open_log_file` in a rotation, with the inode that a new file gets. -/
def thr_open_log_file (faults : FileFaults) (file_path : List Char) (ino : ℕ) (s : LogPaths) : LogPaths :=
  if faults.creat then { s with logino := none }
  else
    match s.dir file_path with
    | some base => { s with logino := some base }
    | none =>
      { s with
        dir := Function.update s.dir file_path (some ino)
        size := Function.update s.size ino 0
        logino := some ino }

/-- The loop that renames file `i - 1`, and so on down to the log file. A file that is not there is
passed over. -/
def rename_files (faults : FileFaults) (file_path : List Char) :
    ℕ → List Char → (List Char → Option ℕ) → Bool × (List Char → Option ℕ)
  | 0, _, dir => (true, dir)
  | i + 1, dst, dir =>
    let src := pmlog_path PATH_MAX file_path i
    match rename (faults.rename i) src dst dir with
    | (.failed, dir) => (false, dir)
    | (_, dir) => rename_files faults file_path i src dir

/-- `_thr_rotate_logs` from where it has won the rotation contest, for a number of files that an `int`
can hold. -/
def thr_rotate_won (faults : FileFaults) (file_path : List Char) (max_files ino : ℕ) (s : LogPaths) : LogPaths :=
  let src := pmlog_path PATH_MAX file_path (max_files - 1)
  match unlink faults.unlink src s.dir with
  | (.failed, _) => s
  | (_, dir) =>
    match rename_files faults file_path (max_files - 1) src dir with
    | (false, dir) => { s with dir }
    | (true, dir) =>
      let s := thr_open_log_file faults file_path ino { s with dir }
      { s with rotations := s.rotations + 1 }

/-- The path of a file by its number: the log file, or an archive of it. -/
def archive (file_path : List Char) (i : ℕ) : List Char :=
  if i = 0 then file_path else file_path ++ '.' :: print_d i

/-- The files have paths that can be opened, and the inode is a new one. -/
structure Proper (ino : ℕ) (s : LogPaths) : Prop where
  short : ∀ p file, s.dir p = some file → p.length < PATH_MAX
  fresh : ∀ p, s.dir p ≠ some ino

/-- What a rotation does. -/
structure Rotated (file_path : List Char) (max_files ino : ℕ) (s s' : LogPaths) : Prop where
  moved : ∀ i < max_files - 1, s'.dir (archive file_path (i + 1)) = s.dir (archive file_path i)
  base : s'.dir file_path = some ino
  logino : s'.logino = some ino
  empty : s'.size ino = 0
  others : ∀ p, (∀ i < max_files, p ≠ archive file_path i) → s'.dir p = s.dir p
  contents : ∀ file ≠ ino, s'.size file = s.size file

/-- What a rotation that is given up leaves: each file but the last archive is there, where it was or
under the next number, and the log is open on the same file. -/
structure GivenUp (file_path : List Char) (max_files : ℕ) (s s' : LogPaths) : Prop where
  files : ∀ p file, s.dir p = some file → p ≠ archive file_path (max_files - 1) → ∃ p', s'.dir p' = some file ∧
    (p' = p ∨ ∃ i < max_files - 1, p = archive file_path i ∧ p' = archive file_path (i + 1))
  logino : s'.logino = s.logino
  contents : s'.size = s.size

/-- A rotation moves every file by one where nothing fails, and loses none where it cannot. -/
def RotatesSafely (file_path : List Char) (max_files : ℕ) : Prop :=
  ∀ faults ino s, Proper ino s →
    let s' := thr_rotate_won faults file_path max_files ino s
    (faults.unlink = false → (∀ i < max_files - 1, faults.rename i = false) → faults.creat = false →
      Rotated file_path max_files ino s s') ∧
    (faults.unlink = true ∨ (∃ i < max_files - 1, faults.rename i = true) → GivenUp file_path max_files s s')

section Paths

variable {file_path : List Char} {siz i j : ℕ}

theorem pmlog_path_eq_snprintf (siz : ℕ) (pth : List Char) (N : ℕ) :
    pmlog_path siz pth N = snprintf siz (archive pth N) := by
  rw [pmlog_path, archive]
  split <;> rfl

theorem pmlog_path_eq (h : (archive file_path i).length < siz) :
    pmlog_path siz file_path i = archive file_path i := by
  rw [pmlog_path_eq_snprintf, snprintf_eq_self h]

theorem length_pmlog_path_lt (file_path : List Char) (i : ℕ) :
    (pmlog_path PATH_MAX file_path i).length < PATH_MAX := by
  rw [pmlog_path_eq_snprintf, snprintf, List.length_take]
  exact Nat.lt_of_le_of_lt (Nat.min_le_left _ _) (by decide)

theorem archive_injective (h : archive file_path i = archive file_path j) : i = j := by
  have hlength := congrArg List.length h
  simp only [archive] at h hlength
  split_ifs at h hlength with hi hj hj
  · omega
  · rw [List.length_append, List.length_cons] at hlength
    omega
  · rw [List.length_append, List.length_cons] at hlength
    omega
  · have hdigits := (List.cons.inj (List.append_cancel_left h)).2
    exact toDigits_injective hdigits

theorem length_print_d_le (h : i ≤ j) : (print_d i).length ≤ (print_d j).length := by
  rcases Nat.eq_zero_or_pos (print_d j).length with hnone | hsome
  · exact absurd (List.length_eq_zero_iff.mp hnone) Nat.toDigits_ne_nil
  · have hj := (Nat.length_toDigits_le_iff (by decide) hsome).mp (Nat.le_refl _)
    exact (Nat.length_toDigits_le_iff (by decide) hsome).mpr (Nat.lt_of_le_of_lt h hj)

theorem length_archive_le (h : i ≤ j) : (archive file_path i).length ≤ (archive file_path j).length := by
  have hdigits := length_print_d_le h
  simp only [archive]
  split_ifs with hi hj hj
  · exact Nat.le_refl _
  · rw [List.length_append]
    omega
  · omega
  · rw [List.length_append, List.length_append, List.length_cons, List.length_cons]
    omega

end Paths

section Renames

variable {faults : FileFaults} {file_path : List Char} {k : ℕ} {dir : List Char → Option ℕ}

/-- The loop moves up the files down to one whose move fails. -/
theorem rename_files_spec
    (hinj : ∀ i ≤ k, ∀ j ≤ k, pmlog_path PATH_MAX file_path i = pmlog_path PATH_MAX file_path j → i = j)
    (hfree : dir (pmlog_path PATH_MAX file_path k) = none) :
    ∃ m ≤ k, ∃ b dir', rename_files faults file_path k (pmlog_path PATH_MAX file_path k) dir = (b, dir') ∧
      Shifted (pmlog_path PATH_MAX file_path) m k dir dir' ∧ (b = true → m = 0) ∧
      (b = true ↔ ∀ i < k, faults.rename i = false) := by
  induction k generalizing dir with
  | zero => exact ⟨0, Nat.le_refl 0, true, dir, rfl, .refl hfree, fun _ => rfl, by simp⟩
  | succ k ih =>
    rw [rename_files]
    cases hfault : faults.rename k with
    | true =>
      refine ⟨k + 1, Nat.le_refl _, false, dir, by simp [rename], .refl hfree, by simp, ?_⟩
      simp only [Bool.false_eq_true, false_iff, not_forall, Bool.not_eq_false]
      exact ⟨k, Nat.lt_succ_self k, hfault⟩
    | false =>
      obtain ⟨result, dir', hrename⟩ : ∃ result dir', rename false (pmlog_path PATH_MAX file_path k)
        (pmlog_path PATH_MAX file_path (k + 1)) dir = (result, dir') := ⟨_, _, rfl⟩
      have hok : (rename false (pmlog_path PATH_MAX file_path k)
          (pmlog_path PATH_MAX file_path (k + 1)) dir).1 ≠ .failed := by
        intro hfailed
        cases (rename_of_failed hfailed).1
      have hfirst : ∀ p, dir' p = _ := fun p => hrename ▸ rename_eq hok hfree p
      rw [hrename] at hok
      have hnext : dir' (pmlog_path PATH_MAX file_path k) = none := by
        rw [hfirst, if_neg, if_pos rfl]
        exact fun heq => absurd (hinj k (by omega) (k + 1) (by omega) heq) (by omega)
      obtain ⟨m, hm, b, last, hloop, hrest, hdone, hiff⟩ :=
        ih (fun i hi j hj => hinj i (by omega) j (by omega)) hnext
      refine ⟨m, by omega, b, last, ?_, .of_rename hinj hm hfirst hrest, hdone, ?_⟩
      · simp only [hrename]
        cases result with
        | failed => exact absurd rfl hok
        | done => exact hloop
        | missing => exact hloop
      · rw [hiff]
        constructor
        · intro hall i hi
          rcases Nat.lt_or_eq_of_le (Nat.le_of_lt_succ hi) with hlt | rfl
          · exact hall i hlt
          · exact hfault
        · exact fun hall i hi => hall i (Nat.lt_succ_of_lt hi)

end Renames

section Rotations

variable {faults : FileFaults} {file_path : List Char} {max_files ino : ℕ} {s : LogPaths}

/-- What a rotation comes to before the log file is opened again, where the names are different ones. -/
theorem thr_rotate_won_spec (hunlink : faults.unlink = false)
    (hinj : ∀ i ≤ max_files - 1, ∀ j ≤ max_files - 1,
      pmlog_path PATH_MAX file_path i = pmlog_path PATH_MAX file_path j → i = j) :
    ∃ m ≤ max_files - 1, ∃ b dir', Shifted (pmlog_path PATH_MAX file_path) m (max_files - 1)
        (fun p => if p = pmlog_path PATH_MAX file_path (max_files - 1) then none else s.dir p) dir' ∧
      (b = true → m = 0) ∧ (b = true ↔ ∀ i < max_files - 1, faults.rename i = false) ∧
      thr_rotate_won faults file_path max_files ino s =
        if b then
          let s := thr_open_log_file faults file_path ino { s with dir := dir' }
          { s with rotations := s.rotations + 1 }
        else { s with dir := dir' } := by
  obtain ⟨result, dir, hresult⟩ : ∃ result dir, unlink faults.unlink
    (pmlog_path PATH_MAX file_path (max_files - 1)) s.dir = (result, dir) := ⟨_, _, rfl⟩
  have hok : (unlink faults.unlink (pmlog_path PATH_MAX file_path (max_files - 1)) s.dir).1 ≠ .failed := by
    intro hfailed
    rw [unlink_failed hfailed] at hunlink
    cases hunlink
  have hdir := unlink_eq hok
  rw [hresult] at hok hdir
  have hdir : dir = fun p => if p = pmlog_path PATH_MAX file_path (max_files - 1) then none else s.dir p :=
    funext hdir
  obtain ⟨m, hm, b, dir', hloop, hshift, hdone, hiff⟩ := @rename_files_spec faults file_path (max_files - 1) dir
    hinj (by rw [hdir]; exact if_pos rfl)
  refine ⟨m, hm, b, dir', hdir ▸ hshift, hdone, hiff, ?_⟩
  rw [thr_rotate_won]
  simp only [hresult]
  cases result with
  | failed => exact absurd rfl hok
  | done => cases b <;> simp only [hloop] <;> rfl
  | missing => cases b <;> simp only [hloop] <;> rfl

/-- Where the names are those of the archives, and different ones. -/
theorem names_of_short (hshort : (archive file_path (max_files - 1)).length < PATH_MAX) :
    (∀ i ≤ max_files - 1, pmlog_path PATH_MAX file_path i = archive file_path i) ∧
      ∀ i ≤ max_files - 1, ∀ j ≤ max_files - 1,
        pmlog_path PATH_MAX file_path i = pmlog_path PATH_MAX file_path j → i = j := by
  have hname : ∀ i ≤ max_files - 1, pmlog_path PATH_MAX file_path i = archive file_path i := fun i hi =>
    pmlog_path_eq (Nat.lt_of_le_of_lt (length_archive_le hi) hshort)
  refine ⟨hname, fun i hi j hj heq => ?_⟩
  rw [hname i hi, hname j hj] at heq
  exact archive_injective heq

theorem rotated_of_short (hshort : (archive file_path (max_files - 1)).length < PATH_MAX)
    (hunlink : faults.unlink = false) (hrename : ∀ i < max_files - 1, faults.rename i = false)
    (hcreat : faults.creat = false) (hfiles : 2 ≤ max_files) :
    Rotated file_path max_files ino s (thr_rotate_won faults file_path max_files ino s) := by
  obtain ⟨hname, hinj⟩ := names_of_short hshort
  obtain ⟨m, -, b, dir', hshift, hdone, hiff, heq⟩ := @thr_rotate_won_spec faults file_path max_files ino s
    hunlink hinj
  obtain rfl := hiff.mpr hrename
  obtain rfl := hdone rfl
  have hbase : archive file_path 0 = file_path := rfl
  have hfree : dir' file_path = none := by
    rw [← hbase, ← hname 0 (Nat.zero_le _)]
    exact hshift.free
  rw [heq, if_pos rfl, thr_open_log_file, hcreat]
  simp only [Bool.false_eq_true, if_false, hfree]
  refine ⟨?_, Function.update_self _ _ _, rfl, Function.update_self _ _ _, ?_, ?_⟩
  · intro i hi
    have hne : archive file_path (i + 1) ≠ file_path := fun h => Nat.succ_ne_zero i (archive_injective h)
    have hlast : pmlog_path PATH_MAX file_path i ≠ pmlog_path PATH_MAX file_path (max_files - 1) := fun h =>
      absurd (hinj i (by omega) _ (Nat.le_refl _) h) (by omega)
    have hmoved := hshift.moved i (Nat.zero_le i) hi
    rw [if_neg hlast, hname i (by omega), hname (i + 1) (by omega)] at hmoved
    exact (Function.update_of_ne hne _ _).trans hmoved
  · intro p hp
    have hother : p ≠ file_path := hp 0 (by omega)
    have hsame := hshift.others p fun i hi => by
      rw [hname i hi]
      exact hp i (by omega)
    rw [if_neg] at hsame
    · exact (Function.update_of_ne hother _ _).trans hsame
    · rw [hname _ (Nat.le_refl _)]
      exact hp _ (by omega)
  · intro file hfile
    exact Function.update_of_ne hfile _ _

theorem givenUp_of_short (hshort : (archive file_path (max_files - 1)).length < PATH_MAX)
    (hfault : faults.unlink = true ∨ ∃ i < max_files - 1, faults.rename i = true) :
    GivenUp file_path max_files s (thr_rotate_won faults file_path max_files ino s) := by
  cases hunlink : faults.unlink with
  | true =>
    have hsame : thr_rotate_won faults file_path max_files ino s = s := by
      rw [thr_rotate_won, unlink, if_pos hunlink]
    rw [hsame]
    exact ⟨fun p file hp _ => ⟨p, hp, .inl rfl⟩, rfl, rfl⟩
  | false =>
    obtain ⟨i, hi, hfault⟩ := hfault.resolve_left (by simp [hunlink])
    obtain ⟨hname, hinj⟩ := names_of_short hshort
    obtain ⟨m, -, b, dir', hshift, -, hiff, heq⟩ := @thr_rotate_won_spec faults file_path max_files ino s
      hunlink hinj
    have hb : b = false := by
      cases b with
      | false => rfl
      | true =>
        rw [hiff.mp rfl i hi] at hfault
        cases hfault
    rw [heq, hb, if_neg (by simp)]
    refine ⟨fun p file hp hlast => ?_, rfl, rfl⟩
    have hstays : (if p = pmlog_path PATH_MAX file_path (max_files - 1) then none else s.dir p) = some file := by
      rwa [if_neg]
      rwa [hname _ (Nat.le_refl _)]
    obtain ⟨p', hp', hwhere⟩ := hshift.exists_of_some (if_pos rfl) hstays
    refine ⟨p', hp', hwhere.imp id ?_⟩
    rintro ⟨j, hj, hsrc, hdst⟩
    exact ⟨j, hj, hsrc.trans (hname j (by omega)), hdst.trans (hname (j + 1) (by omega))⟩

/-- The paths in use can be opened. -/
def Short (dir : List Char → Option ℕ) : Prop := ∀ p file, dir p = some file → p.length < PATH_MAX

theorem short_rename_files {k : ℕ} {dst : List Char} {dir : List Char → Option ℕ} (hdir : Short dir)
    (hdst : dst.length < PATH_MAX) : Short (rename_files faults file_path k dst dir).2 := by
  induction k generalizing dst dir with
  | zero => exact hdir
  | succ k ih =>
    have hsrc := length_pmlog_path_lt file_path k
    have hnext : Short (rename (faults.rename k) (pmlog_path PATH_MAX file_path k) dst dir).2 := by
      intro p file hp
      rcases rename_some hp with hp | rfl
      · exact hdir p file hp
      · exact hdst
    rw [rename_files]
    split
    · next dir' heq => rwa [heq] at hnext
    · next result dir' _ heq =>
      rw [heq] at hnext
      exact ih hnext hsrc

/-- No path comes up that is too long to be opened. -/
theorem short_thr_rotate_won (hpath : file_path.length < PATH_MAX) (hdir : Short s.dir) :
    Short (thr_rotate_won faults file_path max_files ino s).dir := by
  have hsrc := length_pmlog_path_lt file_path (max_files - 1)
  have hfirst : Short (unlink faults.unlink (pmlog_path PATH_MAX file_path (max_files - 1)) s.dir).2 :=
    fun p file hp => hdir p file (unlink_some hp)
  have hloop := @short_rename_files faults file_path (max_files - 1) _ _ hfirst hsrc
  rw [thr_rotate_won]
  split
  · exact hdir
  · next result dir _ heq =>
    rw [heq] at hloop
    split
    · next dir' heq' => rwa [heq'] at hloop
    · next dir' heq' =>
      rw [heq'] at hloop
      simp only [thr_open_log_file]
      split_ifs
      · exact hloop
      · split
        · exact hloop
        · intro p file hp
          simp only [Function.update_apply] at hp
          split_ifs at hp with hsame
          · exact hsame ▸ hpath
          · exact hloop p file hp

/-- The first archive whose path is too long. -/
theorem exists_last_short (hpath : file_path.length < PATH_MAX)
    (hlong : ¬ (archive file_path (max_files - 1)).length < PATH_MAX) :
    ∃ m < max_files - 1, (archive file_path m).length < PATH_MAX ∧
      ¬ (archive file_path (m + 1)).length < PATH_MAX := by
  by_contra hnone
  refine hlong ?_
  suffices hall : ∀ i ≤ max_files - 1, (archive file_path i).length < PATH_MAX from hall _ (Nat.le_refl _)
  intro i
  induction i with
  | zero => exact fun _ => hpath
  | succ i ih =>
    intro hi
    by_contra hnext
    exact hnone ⟨i, hi, ih (Nat.le_of_lt hi), hnext⟩

/-- A rotation is safe just when the path of the last archive is one that can be opened. -/
theorem rotatesSafely_iff (file_path : List Char) (max_files : ℕ) (hpath : file_path.length < PATH_MAX)
    (hfiles : 2 ≤ max_files) :
    RotatesSafely file_path max_files ↔ (archive file_path (max_files - 1)).length < PATH_MAX := by
  constructor
  · intro hsafe
    by_contra hlong
    obtain ⟨m, hm, hshort, htoo⟩ := exists_last_short hpath hlong
    -- the last file whose path is short enough cannot move up
    have hproper : Proper 2 ⟨fun p => if p = archive file_path m then some 1 else none, fun _ => 0, some 1, 0⟩ := by
      constructor
      · intro p file hp
        simp only at hp
        split_ifs at hp with hsame
        exact hsame ▸ hshort
      · intro p hp
        simp only at hp
        split_ifs at hp
        cases hp
    have hrotated := (hsafe {} 2 _ hproper).1 rfl (fun _ _ => rfl) rfl
    have hmoved := (hrotated.moved m hm).trans (if_pos rfl)
    exact htoo (short_thr_rotate_won hpath hproper.short _ _ hmoved)
  · intro hshort faults ino s _ s'
    exact ⟨fun hunlink hrename hcreat => rotated_of_short hshort hunlink hrename hcreat hfiles,
      fun hfault => givenUp_of_short hshort hfault⟩

/-- Five files beside a path of four characters. -/
theorem rotatesSafely_plog : RotatesSafely ['p', 'l', 'o', 'g'] 5 :=
  (rotatesSafely_iff ['p', 'l', 'o', 'g'] 5 (by decide) (by decide)).mpr (by decide)

/-- The log file by itself, open for writing. -/
def alone (file_path : List Char) : LogPaths :=
  ⟨fun p => if p = file_path then some 1 else none, fun _ => 0, some 1, 0⟩

theorem proper_alone (hpath : file_path.length < PATH_MAX) : Proper 2 (alone file_path) := by
  constructor
  · intro p file hp
    simp only [alone] at hp
    split_ifs at hp with hsame
    exact hsame ▸ hpath
  · intro p hp
    simp only [alone] at hp
    split_ifs at hp
    cases hp

/-- Next to a path of the greatest length the name of every archive is cut off to the path itself, and
the log file is discarded. -/
theorem log_lost (hlength : file_path.length = 4095) (p : List Char) :
    (thr_rotate_won {} file_path 2 2 (alone file_path)).dir p ≠ some 1 := by
  have hmax : PATH_MAX = 4096 := rfl
  have hcut : ∀ i, pmlog_path PATH_MAX file_path i = file_path := by
    intro i
    rw [pmlog_path_eq_snprintf, archive, snprintf]
    split_ifs
    · exact List.take_of_length_le (by omega)
    · rw [List.take_append_of_le_length (by omega)]
      exact List.take_of_length_le (by omega)
  simp only [thr_rotate_won, hcut, unlink, alone, if_true, Bool.false_eq_true, if_false, Nat.add_one_sub_one,
    rename_files, rename, Function.update_self, thr_open_log_file, Function.update_apply]
  split_ifs <;> simp

theorem not_rotatesSafely_of_length (hlength : file_path.length = 4095) :
    Proper 2 (alone file_path) ∧ ¬ RotatesSafely file_path 2 := by
  have hproper : Proper 2 (alone file_path) := proper_alone (by rw [hlength]; decide)
  refine ⟨hproper, fun hsafe => ?_⟩
  have hrotated := (hsafe {} 2 _ hproper).1 rfl (fun _ _ => rfl) rfl
  exact log_lost hlength _ ((hrotated.moved 0 (by decide)).trans (if_pos rfl))

/-- A rotation of a log file with a path of 4095 characters, which is the only one of two, loses it. -/
theorem rotatesSafely_longest :
    ¬ RotatesSafely (List.replicate 4095 'a') 2 ∧ Proper 2 (alone (List.replicate 4095 'a')) ∧
      ∀ p, (thr_rotate_won {} (List.replicate 4095 'a') 2 2 (alone (List.replicate 4095 'a'))).dir p ≠ some 1 := by
  have hlength : (List.replicate 4095 'a').length = 4095 := List.length_replicate
  obtain ⟨hproper, hlossy⟩ := not_rotatesSafely_of_length hlength
  exact ⟨hlossy, hproper, log_lost hlength⟩

end Rotations

end pwrapi.log
