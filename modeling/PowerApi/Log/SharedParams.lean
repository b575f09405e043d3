import PowerApi.Log.Rotation

open Execution

namespace pwrapi.log

open LogFiles

variable {fs fs' : LogFiles} {pid : ℕ} {user : LogUser} {own : RotationParams}

/-- Only processes that have the log open have locks, each on its own file, and all use the
parameters in the control file. -/
structure Shared (fs : LogFiles) : Prop where
  locks : ∀ lock ∈ fs.locks, ∃ user, fs.users lock.2 = some user ∧ user.logino = lock.1
  params : ∀ pid user, fs.users pid = some user → fs.ctl = some user.params

/-- All processes that have the log open use the same parameters. -/
def Agree (fs : LogFiles) : Prop :=
  ∀ p q user user', fs.users p = some user → fs.users q = some user' → user.params = user'.params

/-- The processes agree after an action, and one that starts has adopted the parameters of those
that had the log open. -/
def Agreeing (fs : LogFiles) (a : FileAction) (fs' : LogFiles) : Prop :=
  Agree fs' ∧ ∀ pid own, a = .start pid own → ∀ q user user',
    fs.users q = some user → fs'.users pid = some user' → user'.params = user.params

/-- When a process starts, nobody else has the log open, or somebody has the lock on the log file
of now, or all others use the parameters that the process starts with. -/
def StartOk (fs : LogFiles) (a : FileAction) (_ : LogFiles) : Prop :=
  ∀ pid own, a = .start pid own →
    (∀ q, fs.users q = none) ∨
    (∃ q, fs.users q ≠ none ∧ (fs.open_file.1, q) ∈ fs.locks) ∨
    ∀ q user, fs.users q = some user → user.params = own

theorem startOk_rotate (force due : Bool) : StartOk fs (.rotate pid force due) fs' :=
  fun _ _ heq => nomatch heq

theorem startOk_exit : StartOk fs (.exit pid) fs' := fun _ _ heq => nomatch heq

theorem Shared.agree (h : Shared fs) : Agree fs := by
  intro p q user user' hp hq
  exact Option.some.inj ((h.params p user hp).symm.trans (h.params q user' hq))

section Files

@[simp] theorem open_file_users : (open_file fs).2.users = fs.users := by
  unfold open_file
  split <;> rfl

@[simp] theorem open_file_locks : (open_file fs).2.locks = fs.locks := by
  unfold open_file
  split <;> rfl

@[simp] theorem open_file_ctl : (open_file fs).2.ctl = fs.ctl := by
  unfold open_file
  split <;> rfl

theorem Shared.of_dir (h : Shared fs) (dir : ℕ → Option ℕ) : Shared { fs with dir } :=
  ⟨h.locks, h.params⟩

/-- A lock that is left when a process closes its file is another process's. -/
theorem Shared.closed_lock (h : Shared fs) (hpid : fs.users pid = some user) {lock : ℕ × ℕ}
    (hlock : lock ∈ (fs.thr_close_log_file pid user.logino).locks) :
    lock.2 ≠ pid ∧ ∃ user', fs.users lock.2 = some user' ∧ user'.logino = lock.1 := by
  obtain ⟨hmem, hne⟩ := List.mem_filter.mp hlock
  obtain ⟨user', huser, hino⟩ := h.locks lock hmem
  refine ⟨?_, user', huser, hino⟩
  -- the process had no lock but the one that it gave up
  intro heq
  rw [heq, hpid] at huser
  refine of_decide_eq_true hne ?_
  rw [Option.some.inj huser, hino, ← heq]

theorem Shared.reopen (h : Shared fs) (hpid : fs.users pid = some user) :
    Shared (fs.reopen_log_file pid user) := by
  have hclosed : (fs.thr_close_log_file pid user.logino).open_file.2.users = fs.users :=
    open_file_users
  refine ⟨fun lock hlock => ?_, fun q user' hq => ?_⟩
  · have hlock : lock ∈ (fs.thr_close_log_file pid user.logino).open_file.2.locks := hlock
    rw [open_file_locks] at hlock
    obtain ⟨hpid', user', huser, hino⟩ := h.closed_lock hpid hlock
    refine ⟨user', ?_, hino⟩
    show Function.update (fs.thr_close_log_file pid user.logino).open_file.2.users pid _ lock.2 = _
    rw [Function.update_of_ne hpid', hclosed, huser]
  · have hctl : (fs.reopen_log_file pid user).ctl = fs.ctl := open_file_ctl
    have hq : Function.update (fs.thr_close_log_file pid user.logino).open_file.2.users pid _ q =
      some user' := hq
    rw [hclosed, Function.update_apply] at hq
    rw [hctl]
    split_ifs at hq
    · cases hq
      exact h.params pid user hpid
    · exact h.params q user' hq

theorem Shared.rotate (h : Shared fs) (hpid : fs.users pid = some user) (force due : Bool) :
    Shared (fs.thr_rotate_logs pid user force due) := by
  have hrotate : Shared (fs.rotate_files pid user) := (h.of_dir _).reopen hpid
  unfold thr_rotate_logs
  split_ifs
  · exact h
  · exact hrotate
  · exact h
  · exact h
  · split
    · split_ifs
      · exact h.reopen hpid
      · exact hrotate
    · exact hrotate

theorem Shared.exit (h : Shared fs) (hpid : fs.users pid = some user) :
    Shared (fs.exit pid user) := by
  refine ⟨fun lock hlock => ?_, fun q user' hq => ?_⟩
  · obtain ⟨hpid', user', huser, hino⟩ := h.closed_lock hpid hlock
    refine ⟨user', ?_, hino⟩
    show Function.update fs.users pid none lock.2 = _
    rw [Function.update_of_ne hpid', huser]
  · have hq : Function.update fs.users pid none q = some user' := hq
    rw [Function.update_apply] at hq
    split_ifs at hq
    exact h.params q user' hq

end Files

section Start

/-- The control file after a start. -/
def ctl_after (fs : LogFiles) (pid : ℕ) (own : RotationParams) : Option RotationParams :=
  if fs.can_lock pid fs.open_file.1 then some own else fs.ctl

theorem can_lock_open_file (pid ino : ℕ) :
    (open_file fs).2.can_lock pid ino = fs.can_lock pid ino := by
  rw [can_lock, open_file_locks, can_lock]

/-- What a start leaves but for the archives that it may purge. -/
theorem start_spec (fs : LogFiles) (pid : ℕ) (own : RotationParams) :
    (fs.start pid own).ctl = ctl_after fs pid own ∧
    (fs.start pid own).locks = (fs.open_file.1, pid) :: fs.locks ∧
    (fs.start pid own).users = Function.update fs.users pid
      (some ⟨(ctl_after fs pid own).getD own, fs.open_file.1⟩) := by
  have hopened : (fs.open_log_file pid own).2.ctl = ctl_after fs pid own ∧
      (fs.open_log_file pid own).2.locks = (fs.open_file.1, pid) :: fs.locks ∧
      (fs.open_log_file pid own).2.users = Function.update fs.users pid
        (some ⟨(ctl_after fs pid own).getD own, fs.open_file.1⟩) := by
    simp only [open_log_file, can_lock_open_file, open_file_ctl, open_file_locks, open_file_users,
      ctl_after, and_self]
  unfold start
  generalize fs.open_log_file pid own = opened at hopened
  obtain ⟨master, fs'⟩ := opened
  simp only at hopened ⊢
  split
  · split_ifs <;> exact hopened
  · exact hopened

theorem can_lock_eq_false {ino : ℕ} (h : fs.can_lock pid ino = false) :
    ∃ q, (ino, q) ∈ fs.locks ∧ q ≠ pid := by
  rw [can_lock, List.all_eq_false] at h
  obtain ⟨⟨ino', q⟩, hmem, hlock⟩ := h
  simp only [ne_eq, Bool.or_eq_true, decide_eq_true_eq, not_or, not_not] at hlock
  exact ⟨q, hlock.1 ▸ hmem, hlock.2⟩

theorem can_lock_eq_true {ino q : ℕ} (h : fs.can_lock pid ino = true) (hq : (ino, q) ∈ fs.locks) :
    q = pid := by
  have hlock := List.all_eq_true.mp h (ino, q) hq
  simpa using hlock

/-- The log file that another process has locked was opened with the control file written. -/
theorem Shared.ctl_after_eq (h : Shared fs) (pid : ℕ) (own : RotationParams) :
    ctl_after fs pid own = some ((ctl_after fs pid own).getD own) := by
  unfold ctl_after
  split_ifs with hlock
  · rfl
  · obtain ⟨q, hq, -⟩ := can_lock_eq_false (Bool.eq_false_iff.mpr hlock)
    obtain ⟨user, huser, -⟩ := h.locks _ hq
    rw [h.params q user huser]
    rfl

/-- A start leaves the processes with the parameters in the control file if those that had the
log open use them. -/
theorem Shared.start (h : Shared fs) (hpid : fs.users pid = none)
    (hsame : ∀ q user, fs.users q = some user → ctl_after fs pid own = some user.params) :
    Shared (fs.start pid own) := by
  obtain ⟨hctl, hlocks, husers⟩ := start_spec fs pid own
  refine ⟨fun lock hlock => ?_, fun q user hq => ?_⟩
  · rw [hlocks] at hlock
    rw [husers]
    rcases List.mem_cons.mp hlock with rfl | hmem
    · exact ⟨_, Function.update_self .., rfl⟩
    · obtain ⟨user, huser, hino⟩ := h.locks lock hmem
      have hne : lock.2 ≠ pid := by
        intro heq
        rw [heq, hpid] at huser
        cases huser
      exact ⟨user, by rw [Function.update_of_ne hne, huser], hino⟩
  · rw [husers, Function.update_apply] at hq
    rw [hctl]
    split_ifs at hq
    · cases hq
      exact h.ctl_after_eq pid own
    · exact hsame q user hq

/-- The control file after a start has the parameters of the others exactly where the start is
fit for it. -/
theorem Shared.ctl_after_iff (h : Shared fs) (hpid : fs.users pid = none) (own : RotationParams) :
    (∀ q user, fs.users q = some user → ctl_after fs pid own = some user.params) ↔
      StartOk fs (.start pid own) fs := by
  constructor
  · rintro hsame _ _ ⟨⟩
    by_cases hlock : fs.can_lock pid fs.open_file.1 = true
    · refine .inr (.inr fun q user hq => ?_)
      have hctl := hsame q user hq
      rw [ctl_after, if_pos hlock] at hctl
      exact (Option.some.inj hctl).symm
    · obtain ⟨q, hq, -⟩ := can_lock_eq_false (Bool.eq_false_iff.mpr hlock)
      obtain ⟨user, huser, -⟩ := h.locks _ hq
      exact .inr (.inl ⟨q, by rw [huser]; exact Option.some_ne_none user, hq⟩)
  · intro hok q user hq
    unfold ctl_after
    rcases hok pid own rfl with hnone | ⟨q', hq', hlock⟩ | hown
    · rw [hnone q] at hq
      cases hq
    · rw [if_neg, h.params q user hq]
      intro hcan
      rw [can_lock_eq_true hcan hlock] at hq'
      exact hq' hpid
    · split_ifs with hcan
      · rw [hown q user hq]
      · exact h.params q user hq

end Start

/-- One action keeps the processes together exactly where it is fit for it. -/
theorem Shared.step (h : Shared fs) {a : FileAction} (hp : perform_on_files a fs = some fs') :
    (StartOk fs a fs' → Shared fs') ∧ (Agreeing fs a fs' ↔ StartOk fs a fs') := by
  cases a with
  | start pid own =>
    simp only [perform_on_files] at hp
    split_ifs at hp with hpid
    cases hp
    obtain ⟨hctl, -, husers⟩ := start_spec fs pid own
    have hiff := h.ctl_after_iff hpid own
    have hshared : StartOk fs (.start pid own) (fs.start pid own) → Shared (fs.start pid own) :=
      fun hok => h.start hpid (hiff.mpr hok)
    have hkeep : ∀ q user, fs.users q = some user → (fs.start pid own).users q = some user := by
      intro q user hq
      rw [husers, Function.update_of_ne, hq]
      rintro rfl
      rw [hpid] at hq
      cases hq
    refine ⟨hshared, fun hagree => hiff.mp fun q user hq => ?_, fun hok => ⟨(hshared hok).agree, ?_⟩⟩
    · have hnew : (fs.start pid own).users pid =
          some ⟨(ctl_after fs pid own).getD own, fs.open_file.1⟩ := by
        rw [husers, Function.update_self]
      have hadopted : (ctl_after fs pid own).getD own = user.params :=
        hagree.2 pid own rfl q user _ hq hnew
      rw [h.ctl_after_eq, hadopted]
    · rintro _ _ ⟨⟩ q user user' hq hq'
      exact (hshared hok).agree pid q user' user hq' (hkeep q user hq)
  | rotate pid force due =>
    obtain ⟨user, hpid, rfl⟩ := Option.map_eq_some_iff.mp hp
    have hshared := h.rotate hpid force due
    exact ⟨fun _ => hshared, fun _ => startOk_rotate force due,
      fun _ => ⟨hshared.agree, fun _ _ heq => nomatch heq⟩⟩
  | exit pid =>
    obtain ⟨user, hpid, rfl⟩ := Option.map_eq_some_iff.mp hp
    have hshared := h.exit hpid
    exact ⟨fun _ => hshared, fun _ => startOk_exit,
      fun _ => ⟨hshared.agree, fun _ _ heq => nomatch heq⟩⟩

/-- Nobody has the log open yet. -/
structure Unused (fs : LogFiles) : Prop where
  users : ∀ pid, fs.users pid = none
  locks : fs.locks = []

theorem Unused.shared (h : Unused fs) : Shared fs := by
  refine ⟨fun lock hlock => ?_, fun pid user hpid => ?_⟩
  · rw [h.locks] at hlock
    cases hlock
  · rw [h.users] at hpid
    cases hpid

/-- The processes agree after every action of a run, and each that starts adopts what is in
force, exactly if each that starts finds the log unused, a lock on the log file, or its own
parameters in force. -/
theorem agreeing_iff (fs : LogFiles) (hunused : Unused fs) (run : List (FileAction × LogFiles))
    (hrun : EachStep (fun fs a fs' => perform_on_files a fs = some fs') fs run) :
    EachStep Agreeing fs run ↔ EachStep StartOk fs run := by
  refine hrun.iff_of_invariant hunused.shared ?_ ?_
  · intro fs a fs' hp hshared hok
    exact (hshared.step hp).1 hok
  · intro fs a fs' hp hshared
    exact (hshared.step hp).2

/-- The log files in an empty directory. -/
def no_log_files : LogFiles where
  dir _ := none
  next := 0
  ctl := none
  locks := []
  users _ := none

theorem no_log_files_unused : Unused no_log_files := ⟨fun _ => rfl, rfl⟩

/-- The second process finds the lock of the first. The third starts after a rotation, when nobody
has a lock on the new log file, but with the parameters in force. -/
theorem agreeing_three_processes :
    let run := run_of perform_on_files [.start 1 ⟨1024, 5⟩, .start 2 ⟨2048, 3⟩, .rotate 1 true true,
      .rotate 2 false true, .start 3 ⟨1024, 5⟩, .exit 1] no_log_files
    run.length = 6 ∧ EachStep Agreeing no_log_files run := by
  intro run
  refine ⟨by decide, (agreeing_iff _ no_log_files_unused run (eachStep_run_of ..)).mpr ?_⟩
  refine ⟨?_, ?_, startOk_rotate true true, startOk_rotate false true, ?_, startOk_exit, trivial⟩
  · rintro _ _ ⟨⟩
    exact .inl fun _ => rfl
  · rintro _ _ ⟨⟩
    exact .inr (.inl ⟨1, by decide, by decide⟩)
  · rintro _ _ ⟨⟩
    refine .inr (.inr fun q user hq => ?_)
    have hq : Function.update (Function.update (Function.update (Function.update (fun _ => none)
        1 (some ⟨⟨1024, 5⟩, 0⟩)) 2 (some ⟨⟨1024, 5⟩, 0⟩)) 1 (some ⟨⟨1024, 5⟩, 1⟩))
        2 (some ⟨⟨1024, 5⟩, 1⟩) q = some user := hq
    simp only [Function.update_apply] at hq
    split_ifs at hq <;> · cases hq; rfl

/-- The rotation reopens the log file without a lock: the next process that starts locks it
exclusively, and goes on with its own parameters. -/
theorem rotation_drops_the_lock :
    ¬ ∀ (fs : LogFiles) (_ : Unused fs) (run : List (FileAction × LogFiles)),
      EachStep (fun fs a fs' => perform_on_files a fs = some fs') fs run →
      EachStep Agreeing fs run := by
  intro h
  have hrun := h no_log_files no_log_files_unused _ (eachStep_run_of perform_on_files no_log_files
    [.start 1 ⟨1024, 5⟩, .rotate 1 true true, .start 2 ⟨2048, 3⟩])
  obtain ⟨-, -, ⟨hagree, -⟩, -⟩ := hrun
  exact absurd (hagree 1 2 ⟨⟨1024, 5⟩, 1⟩ ⟨⟨2048, 3⟩, 1⟩ rfl rfl) (by decide)

end pwrapi.log
