import Mathlib.Data.Fintype.Basic
import PowerApi.Log.Contention

open Execution HashTable

namespace pwrapi.log

/-- The writer is past the lock on the control file and has not closed it yet. -/
def Pc.Locked : Pc → Prop
  | .stat_locked | .announce _ | .unlink _ | .rename _ _ _ => True
  | .close site | .creat site => site ≠ .unlocked
  | .idle | .lseek | .stat | .lock _ | .done => False

/-- The writer is in a rotation that is not forced, and has taken the second look. -/
def Pc.Chosen : Pc → Prop
  | .announce force | .unlink force | .rename force _ _ => force = false
  | _ => False

/-- The writer has seen that its log file is large enough to be rotated. -/
def Pc.Overflowed : Pc → Prop
  | .stat | .stat_locked => True
  | .lock force => force = false
  | pc => pc.Chosen

/-- The log file is renamed to archive 1 only, and nothing is renamed to the log file. -/
def Pc.Aimed : Pc → Prop
  | .rename _ src dst => dst ≠ 0 ∧ (src = 0 → dst = 1)
  | _ => True

/-- The rotation is done but for the new log file. -/
def Pc.Renamed (pc : Pc) : Prop := pc = .close .rotated ∨ pc = .creat .rotated

theorem Pc.Chosen.overflowed {pc : Pc} (h : pc.Chosen) : pc.Overflowed := by
  cases pc <;> first | exact h | cases h

theorem Pc.Chosen.locked {pc : Pc} (h : pc.Chosen) : pc.Locked := by
  cases pc <;> trivial

theorem Pc.aimed_of_not_locked {pc : Pc} (h : ¬ pc.Locked) : pc.Aimed := by
  cases pc <;> first | trivial | exact absurd trivial h

theorem Pc.Renamed.locked {pc : Pc} (h : pc.Renamed) : pc.Locked := by
  obtain rfl | rfl := h <;> simp [Pc.Locked]

/-- The loop that renames starts right below the file that was unlinked, if at all, except that
the number of that file may have become negative. -/
theorem as_int_pred {n : ℕ} (hn : 2 ≤ n) (hfirst : 0 ≤ as_int (n - 2)) :
    as_int (n - 1) ≠ 0 ∧ (as_int (n - 2) = 0 → as_int (n - 1) = 1) := by
  have hmod : ∀ y : ℤ, y.bmod (2 ^ 32) =
      if y % 4294967296 < 2147483648 then y % 4294967296 else y % 4294967296 - 4294967296 :=
    fun y => Int.bmod_def y _
  obtain ⟨m, rfl⟩ := Nat.exists_eq_add_of_le' hn
  have hlast : as_int (m + 2 - 1) = ((m : ℤ) + 1).bmod (2 ^ 32) := rfl
  have hnext : as_int (m + 2 - 2) = (m : ℤ).bmod (2 ^ 32) := rfl
  rw [hnext, hmod] at hfirst
  rw [hnext, hlast, hmod, hmod]
  omega

namespace SharedLog

variable {π : Type} [DecidableEq π] {params : RotationParams} {s s' : SharedLog π} {pid q : π} {w : Writer}

/-- What is known of a writer from what it has done: it holds the lock it has taken, its log
file is as large as it has seen, and the log file that it is going to rename is its own. -/
structure WriterOk (params : RotationParams) (s : SharedLog π) (pid : π) (w : Writer) : Prop where
  holder : w.pc.Locked → s.ctl = some pid
  overflowed : w.pc.Overflowed → ∃ ino, w.logino = some ino ∧ params.max_size ≤ s.size ino
  current : w.pc.Chosen → s.dir.lookup 0 = w.logino
  target : w.pc.Aimed
  several : w.pc ≠ .idle → 2 ≤ params.max_files

/-- The log file is missing only between the renames and the new log file, with the lock held. -/
structure Sound (params : RotationParams) (s : SharedLog π) : Prop where
  writer : ∀ pid, WriterOk params s pid (s.writers pid)
  present : s.dir.lookup 0 = none → ∃ pid, s.ctl = some pid ∧ (s.writers pid).pc.Renamed

@[simp] theorem set_self : (s.set pid w).writers pid = w := Function.update_self _ _ _

theorem set_of_ne (h : q ≠ pid) : (s.set pid w).writers q = s.writers q := Function.update_of_ne h _ _

@[simp] theorem set_dir : (s.set pid w).dir = s.dir := rfl

@[simp] theorem set_size : (s.set pid w).size = s.size := rfl

@[simp] theorem set_ctl : (s.set pid w).ctl = s.ctl := rfl

omit [DecidableEq π] in
/-- What others do leaves a writer as it is known: they do not take its lock, its file does
not shrink, and while it is rotating they leave the log file in place. -/
theorem WriterOk.frame (h : WriterOk params s pid w) (hctl : w.pc.Locked → s.ctl = some pid → s'.ctl = some pid)
    (hsize : ∀ ino, w.logino = some ino → s.size ino ≤ s'.size ino)
    (hdir : w.pc.Chosen → s'.dir.lookup 0 = s.dir.lookup 0) : WriterOk params s' pid w where
  holder hlocked := hctl hlocked (h.holder hlocked)
  overflowed hover := by
    obtain ⟨ino, hino, hle⟩ := h.overflowed hover
    exact ⟨ino, hino, hle.trans (hsize ino hino)⟩
  current hchosen := (hdir hchosen).trans (h.current hchosen)
  target := h.target
  several := h.several

/-- A step of one writer that keeps the others, where it does no more to the files than they can bear. -/
theorem Sound.of_step (hs : s.Sound params) (hothers : ∀ q, q ≠ pid → s'.writers q = s.writers q)
    (hctl : ∀ q, q ≠ pid → s.ctl = some q → s'.ctl = some q)
    (hsize : ∀ q ino, q ≠ pid → (s.writers q).logino = some ino → s.size ino ≤ s'.size ino)
    (hdir : ∀ q, q ≠ pid → (s.writers q).pc.Chosen → s'.dir.lookup 0 = s.dir.lookup 0)
    (hself : WriterOk params s' pid (s'.writers pid))
    (hpresent : s'.dir.lookup 0 = none → ∃ pid, s'.ctl = some pid ∧ (s'.writers pid).pc.Renamed) :
    s'.Sound params where
  writer q := by
    by_cases hq : q = pid
    · subst hq
      exact hself
    · rw [hothers q hq]
      exact (hs.writer q).frame (fun _ => hctl q hq) (hsize q · hq) (hdir q hq)
  present := hpresent

/-- A step of one writer that touches no file. -/
theorem Sound.of_set (hs : s.Sound params) (hself : WriterOk params s pid w)
    (hrenamed : (s.writers pid).pc.Renamed → w.pc.Renamed) : (s.set pid w).Sound params := by
  refine hs.of_step (fun q hq => set_of_ne hq) (fun _ _ => id) (fun _ _ _ _ => le_refl _) (fun _ _ _ => rfl) ?_ ?_
  · rw [set_self]
    exact hself.frame (fun _ => id) (fun _ _ => le_refl _) fun _ => rfl
  · intro hnone
    obtain ⟨q, hq, hpc⟩ := hs.present hnone
    refine ⟨q, hq, ?_⟩
    by_cases heq : q = pid
    · subst heq
      rw [set_self]
      exact hrenamed hpc
    · rw [set_of_ne heq]
      exact hpc

omit [DecidableEq π] in
/-- A writer that has nothing to do with the lock and no large file. -/
theorem WriterOk.plain (hlocked : ¬ w.pc.Locked) (hover : ¬ w.pc.Overflowed)
    (hseveral : w.pc ≠ .idle → 2 ≤ params.max_files) : WriterOk params s pid w where
  holder h := absurd h hlocked
  overflowed h := absurd h hover
  current h := absurd h.overflowed hover
  target := Pc.aimed_of_not_locked hlocked
  several := hseveral

omit [DecidableEq π] in
/-- A writer that goes on with the file it has, and has not seen more of it than before. -/
theorem WriterOk.next (h : WriterOk params s pid w) {w' : Writer} (hino : w'.logino = w.logino)
    (hlocked : w'.pc.Locked → w.pc.Locked) (hover : w'.pc.Overflowed → w.pc.Overflowed)
    (hchosen : w'.pc.Chosen → w.pc.Chosen) (hbusy : w'.pc ≠ .idle → w.pc ≠ .idle)
    (htarget : w'.pc.Aimed) :
    WriterOk params s pid w' where
  holder h' := h.holder (hlocked h')
  overflowed h' := by
    rw [hino]
    exact h.overflowed (hover h')
  current h' := by
    rw [hino]
    exact h.current (hchosen h')
  target := htarget
  several h' := h.several (hbusy h')

omit [DecidableEq π] in
/-- Only one writer is past the lock. -/
theorem Sound.locked_unique (hs : s.Sound params) (hp : (s.writers pid).pc.Locked) (hq : (s.writers q).pc.Locked) :
    q = pid := Option.some.inj (((hs.writer q).holder hq).symm.trans ((hs.writer pid).holder hp))

omit [DecidableEq π] in
/-- While a writer is past the lock and has not renamed yet, the log file is there. -/
theorem Sound.lookup_isSome (hs : s.Sound params) (hp : (s.writers pid).pc.Locked)
    (hnot : ¬ (s.writers pid).pc.Renamed) : ∃ ino, s.dir.lookup 0 = some ino := by
  rw [← Option.ne_none_iff_exists']
  intro hnone
  obtain ⟨q, -, hq⟩ := hs.present hnone
  obtain rfl := hs.locked_unique hp hq.locked
  exact hnot hq

omit [DecidableEq π] in
theorem le_appended (bytes ino : ℕ) : s.size ino ≤ s.appended w bytes ino := by
  unfold appended
  cases w.logino with
  | none => exact le_refl _
  | some own =>
    simp only [Function.update_apply]
    split
    · next heq =>
      rw [heq]
      omega
    · exact le_refl _

/-- A writer that appends to its file and goes on. -/
theorem Sound.append (hs : s.Sound params) {w' : Writer} {bytes : ℕ} (hok : WriterOk params s pid w')
    (hnot : ¬ (s.writers pid).pc.Renamed) :
    (({ s with size := s.appended w bytes } : SharedLog π).set pid w').Sound params := by
  refine hs.of_step (fun q hq => set_of_ne hq) (fun _ _ => id) (fun _ ino _ _ => le_appended bytes ino)
    (fun _ _ _ => rfl) ?_ ?_
  · rw [set_self]
    exact hok.frame (fun _ => id) (fun ino _ => le_appended bytes ino) fun _ => rfl
  · intro hnone
    obtain ⟨q, hq, hrenamed⟩ := hs.present hnone
    have hne : q ≠ pid := by
      rintro rfl
      exact hnot hrenamed
    exact ⟨q, hq, by rw [set_of_ne hne]; exact hrenamed⟩

theorem Sound.write (hs : s.Sound params) {bytes : ℕ} {msglen : UInt64}
    (h : s.thr_write_message bytes msglen pid = some s') : s'.Sound params := by
  have hw := hs.writer pid
  unfold thr_write_message at h
  simp only at h
  split at h
  · next hpc =>
    cases h
    apply hs.append
    · exact hw.next rfl id id id id hw.target
    · simp [hpc, Pc.Renamed]
  · next force hpc =>
    cases h
    apply hs.append
    · refine hw.next rfl ?_ ?_ ?_ ?_ ?_
      all_goals simp [hpc, Pc.Locked, Pc.Overflowed, Pc.Chosen, Pc.Aimed]
    · simp [hpc, Pc.Renamed]
  · cases h

theorem Sound.rotate (hs : s.Sound params) {force : Bool} (h : s.thr_rotate_logs params force pid = some s') :
    s'.Sound params := by
  unfold thr_rotate_logs at h
  simp only at h
  split at h
  · cases h
  · next hidle =>
    have hpc : (s.writers pid).pc = .idle := not_not.mp hidle
    have hself : ∀ w : Writer, ¬ w.pc.Locked → ¬ w.pc.Overflowed → 2 ≤ params.max_files →
        (s.set pid w).Sound params := by
      intro w hlocked hover hfiles
      refine hs.of_set (WriterOk.plain hlocked hover fun _ => hfiles) ?_
      simp [hpc, Pc.Renamed]
    split at h
    · cases h
      exact hs
    · next hfiles =>
      split at h
      · cases h
        exact hself _ id (by simp [Pc.Overflowed]) (by omega)
      split at h
      · cases h
        exact hs
      split at h
      · cases h
        exact hs
      · cases h
        exact hself _ id id (by omega)

omit [DecidableEq π] in
/-- A file renamed from and to other numbers leaves the log file. -/
theorem lookup_rename_file {dir : HashTable ℤ ℕ} {src dst : ℤ} (hsrc : src ≠ 0) (hdst : dst ≠ 0) :
    (rename_file dir src dst).lookup 0 = dir.lookup 0 := by
  unfold rename_file
  split
  · rw [lookup_insert_eq_ite, if_neg (Ne.symm hdst), lookup_erase_eq_ite, if_neg (Ne.symm hsrc)]
  · rfl

/-- A writer with the lock changes the names of files and goes on in its loop, where the log file
stays unless the loop has ended. -/
theorem Sound.relink (hs : s.Sound params) (hlocked : (s.writers pid).pc.Locked)
    (hnot : ¬ (s.writers pid).pc.Renamed) {force : Bool} (hforce : force = false → (s.writers pid).pc.Chosen)
    {dir : HashTable ℤ ℕ} {i dst : ℤ} (hkept : 0 ≤ i → dir.lookup 0 = s.dir.lookup 0)
    (htarget : 0 ≤ i → dst ≠ 0 ∧ (i = 0 → dst = 1)) :
    (({ s with dir } : SharedLog π).set pid { s.writers pid with pc := rename_from force i dst }).Sound params := by
  have hw := hs.writer pid
  have hfiles : 2 ≤ params.max_files := by
    apply hw.several
    intro hidle
    rw [hidle] at hlocked
    exact hlocked
  refine hs.of_step (fun q hq => set_of_ne hq) (fun _ _ => id) (fun _ _ _ _ => le_refl _) ?_ ?_ ?_
  · intro q hq hchosen
    exact absurd (hs.locked_unique hlocked hchosen.locked) hq
  · rw [set_self]
    unfold rename_from
    split
    · next hi =>
      refine ⟨fun _ => hw.holder hlocked, fun hover => hw.overflowed (hforce hover).overflowed, ?_, ?_,
        fun _ => hfiles⟩
      · intro hchosen
        exact (hkept hi).trans (hw.current (hforce hchosen))
      · refine ⟨(htarget hi).1, fun hzero => (htarget hi).2 ?_⟩
        omega
    · exact ⟨fun _ => hw.holder hlocked, fun hover => absurd hover id, fun hchosen => absurd hchosen id, trivial,
        fun _ => hfiles⟩
  · intro hnone
    refine ⟨pid, hw.holder hlocked, ?_⟩
    rw [set_self]
    unfold rename_from
    split
    · next hi =>
      obtain ⟨ino, hino⟩ := hs.lookup_isSome hlocked hnot
      rw [← hkept hi] at hino
      exact absurd (hino.symm.trans hnone) (Option.some_ne_none ino)
    · exact Or.inl rfl

theorem Sound.unlink (hs : s.Sound params) {force : Bool} (hpc : (s.writers pid).pc = .unlink force) :
    (({ s with dir := s.dir.erase (as_int (params.max_files - 1)) } : SharedLog π).set pid
      { s.writers pid with
        pc := rename_from force (as_int (params.max_files - 2)) (as_int (params.max_files - 1)) }).Sound params := by
  have hfiles : 2 ≤ params.max_files := (hs.writer pid).several (by simp [hpc])
  apply hs.relink
  · rw [hpc]
    trivial
  · simp [hpc, Pc.Renamed]
  · rw [hpc]
    exact id
  · intro hfirst
    rw [lookup_erase_eq_ite, if_neg (Ne.symm (as_int_pred hfiles hfirst).1)]
  · exact as_int_pred hfiles

theorem Sound.rename (hs : s.Sound params) {force : Bool} {src : ℕ} {dst : ℤ}
    (hpc : (s.writers pid).pc = .rename force src dst) :
    (({ s with dir := rename_file s.dir src dst } : SharedLog π).set pid
      { s.writers pid with pc := rename_from force (src - 1) src }).Sound params := by
  have haimed := (hs.writer pid).target
  rw [hpc] at haimed
  apply hs.relink
  · rw [hpc]
    trivial
  · simp [hpc, Pc.Renamed]
  · rw [hpc]
    exact id
  · intro hnext
    exact lookup_rename_file (by omega) haimed.1
  · intro hnext
    omega

/-- The log file is opened again, and created where it is missing. -/
theorem Sound.creat (hs : s.Sound params) {site : Reopen} (hpc : (s.writers pid).pc = .creat site) {ino : ℕ}
    (hunused : s.dir.lookup 0 = none → s.Unused ino) (h : s.advance params ino pid = some s') : s'.Sound params := by
  have hfiles : 2 ≤ params.max_files := (hs.writer pid).several (by simp [hpc])
  have hdone : ∀ {s' : SharedLog π} {logino}, WriterOk params s' pid { s.writers pid with logino, pc := .done } :=
    WriterOk.plain id id fun _ => hfiles
  simp only [advance, hpc] at h
  split at h
  · next base hbase =>
    cases h
    refine hs.of_step (fun q hq => set_of_ne hq) (fun _ _ => id) (fun _ _ _ _ => le_refl _) (fun _ _ _ => rfl) ?_ ?_
    · rw [set_self]
      exact hdone
    · intro hnone
      exact absurd (hbase.symm.trans hnone) (Option.some_ne_none base)
  · next hnone =>
    cases h
    obtain ⟨-, hclosed⟩ := hunused hnone
    refine hs.of_step (fun q hq => set_of_ne hq) (fun _ _ => id) ?_ ?_ ?_ ?_
    · intro q own _ hown
      have hne : own ≠ ino := by
        rintro rfl
        exact hclosed q hown
      exact le_of_eq (Function.update_of_ne hne _ _).symm
    · intro q _ hchosen
      obtain ⟨own, hown, -⟩ := (hs.writer q).overflowed hchosen.overflowed
      have hbase := ((hs.writer q).current hchosen).trans hown
      exact absurd (hbase.symm.trans hnone) (Option.some_ne_none own)
    · rw [set_self]
      exact hdone
    · intro habsent
      rw [set_dir, lookup_insert_eq_ite, if_pos rfl] at habsent
      cases habsent

/-- A writer that takes the lock still knows the file that it measured. -/
theorem Sound.lock {force : Bool} (hs : s.Sound params) (hpc : (s.writers pid).pc = .lock force)
    (hnone : s.ctl = none) :
    ({ s with ctl := some pid }.set pid
      { s.writers pid with pc := if force then .announce true else .stat_locked }).Sound params := by
  have hw := hs.writer pid
  have hfiles : 2 ≤ params.max_files := hw.several (by simp [hpc])
  have hheld : ∀ q, s.ctl ≠ some q := by simp [hnone]
  refine hs.of_step (fun q hq => set_of_ne hq) (fun q _ hq => absurd hq (hheld q)) (fun _ _ _ _ => le_refl _)
    (fun _ _ _ => rfl) ?_ ?_
  · rw [set_self]
    cases force with
    | true =>
      exact ⟨fun _ => rfl, fun hover => (by cases hover), fun hchosen => (by cases hchosen), trivial, fun _ => hfiles⟩
    | false =>
      have hover := hw.overflowed (by rw [hpc]; rfl)
      exact ⟨fun _ => rfl, fun _ => hover, fun hchosen => absurd hchosen id, trivial, fun _ => hfiles⟩
  · intro habsent
    obtain ⟨q, hq, -⟩ := hs.present habsent
    exact absurd hq (hheld q)

/-- A writer that has found the measured file once more is about to rotate it. -/
theorem Sound.stat_locked (hs : s.Sound params) (hpc : (s.writers pid).pc = .stat_locked) :
    (s.set pid { s.writers pid with
      pc := if s.stale (s.writers pid) then .close .locked else .announce false }).Sound params := by
  have hw := hs.writer pid
  have hlocked : (s.writers pid).pc.Locked := by
    rw [hpc]
    trivial
  obtain ⟨base, hbase⟩ := hs.lookup_isSome hlocked (by simp [hpc, Pc.Renamed])
  refine hs.of_set ?_ (by simp [hpc, Pc.Renamed])
  split
  · exact hw.next rfl (fun _ => hlocked) (fun hover => absurd hover id) (fun hchosen => absurd hchosen id)
      (by simp [hpc]) trivial
  · next hstale =>
    -- the second look has found the file that was measured
    have hsame : (s.writers pid).logino = some base := by simpa [stale, hbase] using hstale
    exact ⟨fun _ => hw.holder hlocked, fun _ => hw.overflowed (by rw [hpc]; trivial),
      fun _ => hbase.trans hsame.symm, trivial, fun _ => hw.several (by simp [hpc])⟩

/-- A writer that is done gives up no lock but its own. -/
theorem Sound.done (hs : s.Sound params) (hpc : (s.writers pid).pc = .done) :
    ({ s with ctl := if s.ctl = some pid then none else s.ctl }.set pid
      { s.writers pid with pc := .idle }).Sound params := by
  have hkept : ∀ q, q ≠ pid → s.ctl = some q → (if s.ctl = some pid then none else s.ctl) = some q := by
    intro q hne hq
    rw [if_neg fun heq => hne (Option.some.inj (hq.symm.trans heq)), hq]
  refine hs.of_step (fun q hq => set_of_ne hq) hkept (fun _ _ _ _ => le_refl _) (fun _ _ _ => rfl) ?_ ?_
  · rw [set_self]
    exact WriterOk.plain id id fun hidle => absurd rfl hidle
  · intro habsent
    obtain ⟨q, hq, hrenamed⟩ := hs.present habsent
    have hne : q ≠ pid := by
      rintro rfl
      simp [hpc, Pc.Renamed] at hrenamed
    exact ⟨q, hkept q hne hq, by rw [set_of_ne hne]; exact hrenamed⟩

/-- Whatever operation a writer comes to. -/
theorem Sound.advance (hs : s.Sound params) {ino : ℕ}
    (hunused : (s.writers pid).pc ∈ [.creat .unlocked, .creat .locked, .creat .rotated] → s.dir.lookup 0 = none →
      s.Unused ino) (h : s.advance params ino pid = some s') : s'.Sound params := by
  have hw := hs.writer pid
  have hfiles : (s.writers pid).pc ≠ .idle → 2 ≤ params.max_files := hw.several
  cases hpc : (s.writers pid).pc with
  | idle => simp [SharedLog.advance, hpc] at h
  | announce force => simp [SharedLog.advance, hpc] at h
  | lseek =>
    simp only [SharedLog.advance, hpc] at h
    split at h
    · next own hown =>
      cases h
      refine hs.of_set ?_ (by simp [hpc, Pc.Renamed])
      split
      · exact WriterOk.plain id id fun hidle => absurd rfl hidle
      · next hlarge =>
        exact ⟨fun hlocked => absurd hlocked id, fun _ => ⟨own, hown, by omega⟩, fun hchosen => absurd hchosen id,
          trivial, fun _ => hfiles (by simp [hpc])⟩
    · cases h
  | stat =>
    simp only [SharedLog.advance, hpc] at h
    cases h
    refine hs.of_set ?_ (by simp [hpc, Pc.Renamed])
    split
    · exact WriterOk.plain (by simp [Pc.Locked]) id fun _ => hfiles (by simp [hpc])
    · exact hw.next rfl (fun hlocked => absurd hlocked id) (fun _ => by rw [hpc]; trivial)
        (fun hchosen => absurd hchosen id) (by simp [hpc]) trivial
  | lock force =>
    simp only [SharedLog.advance, hpc] at h
    split at h
    · cases h
    · next hfree =>
      cases h
      exact hs.lock hpc (Option.not_isSome_iff_eq_none.mp hfree)
  | stat_locked =>
    simp only [SharedLog.advance, hpc] at h
    cases h
    exact hs.stat_locked hpc
  | unlink force =>
    simp only [SharedLog.advance, hpc] at h
    cases h
    exact hs.unlink hpc
  | rename force src dst =>
    simp only [SharedLog.advance, hpc] at h
    cases h
    exact hs.rename hpc
  | close site =>
    simp only [SharedLog.advance, hpc] at h
    cases h
    apply hs.of_set
    · exact ⟨fun hlocked => hw.holder (by rw [hpc]; exact hlocked), fun hover => absurd hover id,
        fun hchosen => absurd hchosen id, trivial, fun _ => hfiles (by simp [hpc])⟩
    · rw [hpc]
      rintro (heq | heq) <;> cases heq
      exact Or.inr rfl
  | creat site =>
    refine hs.creat hpc (hunused ?_) h
    rw [hpc]
    cases site <;> simp
  | done =>
    simp only [SharedLog.advance, hpc] at h
    cases h
    exact hs.done hpc

/-- All processes are between two calls of `_thr_rotate_logs`, and the log file is there. -/
structure Begins (s : SharedLog π) : Prop where
  ctl : s.ctl = none
  idle : ∀ pid, (s.writers pid).pc = .idle
  present : s.dir.lookup 0 ≠ none

omit [DecidableEq π] in
theorem Begins.sound (hb : s.Begins) : s.Sound params where
  writer pid := by
    apply WriterOk.plain
    · rw [hb.idle]
      exact id
    · rw [hb.idle]
      exact id
    · exact fun hbusy => absurd (hb.idle pid) hbusy
  present hnone := absurd hnone hb.present

theorem Sound.step (hs : s.Sound params) {step : π × LogAction} (hstep : LogStep params s step s') :
    s'.Sound params := by
  obtain ⟨pid, action⟩ := step
  obtain ⟨hunused, hperform⟩ := hstep
  cases action with
  | write bytes msglen => exact hs.write hperform
  | rotate force => exact hs.rotate hperform
  | advance ino => exact hs.advance hunused hperform

/-- A rotation that is not forced makes a log file to archive 1 that has reached the limit. And
whenever it removes or renames an archive, the log file is there and has reached the limit. -/
structure RotatesFull (params : RotationParams) (s : SharedLog π) (step : π × LogAction) : Prop where
  archived : ∀ {fresh ino dst}, step.2 = .advance fresh → (s.writers step.1).pc = .rename false 0 dst →
    s.dir.lookup 0 = some ino → dst = 1 ∧ params.max_size ≤ s.size ino
  pushed : ∀ {fresh}, step.2 = .advance fresh →
    ((s.writers step.1).pc = .unlink false ∨ ∃ src dst, (s.writers step.1).pc = .rename false src dst) →
      ∃ ino, s.dir.lookup 0 = some ino ∧ params.max_size ≤ s.size ino

omit [DecidableEq π] in
theorem Sound.log_file_full (hs : s.Sound params) (hchosen : (s.writers pid).pc.Chosen) :
    ∃ ino, s.dir.lookup 0 = some ino ∧ params.max_size ≤ s.size ino := by
  obtain ⟨ino, hino, hlarge⟩ := (hs.writer pid).overflowed hchosen.overflowed
  exact ⟨ino, ((hs.writer pid).current hchosen).trans hino, hlarge⟩

omit [DecidableEq π] in
theorem Sound.rotatesFull (hs : s.Sound params) (step : π × LogAction) : s.RotatesFull params step where
  archived {fresh ino dst} _ hpc hbase := by
    have hchosen : (s.writers step.1).pc.Chosen := by
      rw [hpc]
      rfl
    obtain ⟨own, hown, hlarge⟩ := hs.log_file_full hchosen
    obtain rfl : own = ino := Option.some.inj (hown.symm.trans hbase)
    have haimed := (hs.writer step.1).target
    rw [hpc] at haimed
    exact ⟨haimed.2 rfl, hlarge⟩
  pushed _ hpc := by
    apply hs.log_file_full
    obtain hpc | ⟨src, dst, hpc⟩ := hpc
    · rw [hpc]
      rfl
    · rw [hpc]
      rfl

/-- In every run of any processes with the same parameters, every rotation that is not forced
finds a log file that has reached the limit. -/
theorem rotations_full (params : RotationParams) (s : SharedLog π) (hbegins : s.Begins)
    (run : List ((π × LogAction) × SharedLog π)) (hrun : EachStep (LogStep params) s run) :
    EachStep (fun s step _ => s.RotatesFull params step) s run :=
  hrun.of_invariant (I := Sound params) hbegins.sound fun _ step _ hstep hs => ⟨hs.step hstep, hs.rotatesFull step⟩

instance [Fintype π] (s : SharedLog π) : (step : π × LogAction) → Decidable (s.Creates step)
  | (pid, .advance ino) => inferInstanceAs (Decidable ((s.writers pid).pc ∈ _ → s.dir.lookup 0 = none →
      ino ∉ values s.dir ∧ ∀ pid, (s.writers pid).logino ≠ some ino))
  | (_, .write _ _) => .isTrue trivial
  | (_, .rotate _) => .isTrue trivial

/-- Two processes with a log file that has reached the limit. -/
def full_log : SharedLog (Fin 2) where
  dir := (∅ : HashTable ℤ ℕ).insert 0 10
  size _ := 4096
  writers _ := { logino := some 10, written := 2000 }

/-- Both notice the limit before the first takes the lock. -/
def both_notice : List (Fin 2 × LogAction) :=
  [(0, .rotate false), (1, .rotate false), (0, .advance 11), (1, .advance 11), (0, .advance 11), (1, .advance 11),
    (0, .advance 11), (0, .advance 11), (0, .write 40 48), (0, .advance 11), (0, .advance 11), (0, .advance 11),
    (0, .advance 11), (0, .advance 11), (1, .advance 12), (1, .advance 12), (1, .advance 12), (1, .advance 12),
    (1, .advance 12)]

theorem rotations_full_both_notice :
    (run_of (perform ⟨4096, 2⟩) both_notice full_log).length = 19 ∧
      EachStep (fun s step _ => s.RotatesFull ⟨4096, 2⟩ step) full_log
        (run_of (perform ⟨4096, 2⟩) both_notice full_log) := by
  refine ⟨by decide +kernel, ?_⟩
  have hcreates : EachStep (fun s step _ => s.Creates step) full_log
      (run_of (perform ⟨4096, 2⟩) both_notice full_log) := by decide +kernel
  refine rotations_full ⟨4096, 2⟩ full_log ⟨rfl, fun _ => rfl, by decide⟩ _ ?_
  exact (hcreates.and (eachStep_run_of _ full_log both_notice)).imp fun _ _ _ h => h

/-- The second process finds the new log file, and opens it. -/
example : (run_of (perform ⟨4096, 2⟩) both_notice full_log).map (fun x => (x.2.writers 1).logino) =
    List.replicate 16 (some 10) ++ [none, some 11, some 11] := by decide +kernel

end SharedLog

end pwrapi.log
