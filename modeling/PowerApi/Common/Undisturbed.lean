import PowerApi.Common.SharedUids

open Execution

namespace pwrapi.permissions

open PermissionsFile

variable {Pid : Type} [DecidableEq Pid] {s s' : Recorded Pid} {pid : Pid}

/-- What holds of the files, the processes and the ledger between the steps. -/
structure Consistent (s : Recorded Pid) : Prop where
  exclusive : ∀ p q, p ≠ q → (s.processes.progress p).temp_in_use →
    (s.processes.progress q).temp_in_use = false
  old : ∀ path ino, s.processes.files.dir path = some ino → ino < s.processes.files.next
  distinct : ∀ ino, s.processes.files.dir CURR_PERMISSIONS_FILE = some ino →
    s.processes.files.dir TEMP_PERMISSIONS_FILE ≠ some ino
  current : ¬ Between s.processes → ∃ ino, s.processes.files.dir CURR_PERMISSIONS_FILE = some ino ∧
    Lists (s.processes.files.content ino) s.ledger.permitted
  sound : ∀ pid, Sound s.processes.files s.ledger.permitted (s.ledger.ever pid) (s.ledger.always pid)
    (s.processes.progress pid)

section Between

omit [DecidableEq Pid]

theorem copy_made_of_between {progress : Progress} (h : progress.between) : progress.copy_made := by
  cases progress with
  | removed => rfl
  | _ => cases h

theorem temp_in_use_of_copy_made {progress : Progress} (h : progress.copy_made) :
    progress.temp_in_use := by
  cases progress with
  | copied | removed => rfl
  | _ => cases h

theorem not_temp_in_use {progress : Progress} {P : Prop} (h : progress.temp_in_use = false)
    (hin_use : progress.temp_in_use) : P := by
  rw [h] at hin_use
  cases hin_use

theorem Initial.consistent (h : Initial s) : Consistent s := by
  obtain ⟨ino, hcurr, hwf, hnewline⟩ := h.current
  have hpermitted : uids (s.processes.files.content ino) = s.ledger.permitted := by
    rw [← h.ledger]
    unfold Inodes.permitted Disk.permitted Disk.current Inodes.disk
    rw [hcurr, Option.map_some, Option.getD_some]
  refine ⟨fun p q _ hp => ?_, h.linked.old, fun i hi htemp => ?_,
    fun _ => ⟨ino, hcurr, hwf, hnewline.last_word, hpermitted⟩, fun pid => ?_⟩
  · rw [h.outside] at hp
    cases hp
  · cases h.linked.distinct _ _ i hi htemp
  · rw [h.outside]
    trivial

theorem Consistent.inFile (h : Consistent s) (hbetween : ¬ Between s.processes) : InFile s := by
  obtain ⟨ino, hcurr, hlists⟩ := h.current hbetween
  unfold InFile Inodes.permitted Disk.permitted Disk.current Inodes.disk
  rw [hcurr, Option.map_some, Option.getD_some, hlists.uids]

/-- A file found in the place of the current one lists the uids permitted, or was created while a
deletion is about to rename its copy. -/
theorem Consistent.found (h : Consistent s) {ino : ℕ}
    (hcurr : s.processes.files.dir CURR_PERMISSIONS_FILE = some ino) :
    Lists (s.processes.files.content ino) s.ledger.permitted ∨
      Between s.processes ∧ s.processes.files.content ino = [] := by
  by_cases hbetween : Between s.processes
  · obtain ⟨p, hp⟩ := hbetween
    have hsound := h.sound p
    cases hprogress : s.processes.progress p with
    | removed uid =>
      rw [hprogress] at hsound
      exact .inr ⟨⟨p, hp⟩, hsound.2 ino hcurr⟩
    | _ => rw [hprogress] at hp; cases hp
  · obtain ⟨ino', hcurr', hlists⟩ := h.current hbetween
    obtain rfl : ino' = ino := Option.some.inj (hcurr'.symm.trans hcurr)
    exact .inl hlists

/-- No deletion is about to rename its copy while another has the temporary file open. -/
theorem Consistent.not_between (h : Consistent s) (hpid : (s.processes.progress pid).temp_in_use)
    (hbetween : (s.processes.progress pid).between = false) : ¬ Between s.processes := by
  rintro ⟨p, hp⟩
  have hne : p ≠ pid := by
    rintro rfl
    rw [hbetween] at hp
    cases hp
  rw [h.exclusive p pid hne (temp_in_use_of_copy_made (copy_made_of_between hp))] at hpid
  cases hpid

theorem Between.update [DecidableEq Pid] (h : Between s.processes)
    (hpid : (s.processes.progress pid).between = false) (files' : Inodes) (progress' : Progress) :
    Between { files := files', progress := Function.update s.processes.progress pid progress' } := by
  obtain ⟨p, hp⟩ := h
  have hne : p ≠ pid := by
    rintro rfl
    rw [hpid] at hp
    cases hp
  refine ⟨p, ?_⟩
  show (Function.update s.processes.progress pid progress' p).between
  rwa [Function.update_of_ne hne]

end Between

section Moves

/-- The state behind a step of a process, given what the step leaves. -/
def Recorded.moved (s : Recorded Pid) (pid : Pid) (progress : Progress) (files : Inodes)
    (permitted : Finset UInt32) : Recorded Pid where
  processes := { files, progress := Function.update s.processes.progress pid progress }
  ledger := {
    permitted
    ever := fun q => s.ledger.ever q ∪ permitted
    always := fun q => s.ledger.always q ∩ permitted }

variable {progress' : Progress} {files' : Inodes} {permitted' : Finset UInt32}

/-- A step keeps what holds between the steps if it spares the other processes. -/
theorem Consistent.moved (h : Consistent s)
    (hexclusive : progress'.temp_in_use → (s.processes.progress pid).temp_in_use ∨
      ∀ q, (s.processes.progress q).temp_in_use = false)
    (hextends : Extends s.processes.files files' permitted')
    (hspares : ∀ q, q ≠ pid →
      Spares s.processes.files files' s.ledger.permitted permitted' (s.processes.progress q))
    (hold : ∀ path ino, files'.dir path = some ino → ino < files'.next)
    (hdistinct : ∀ ino, files'.dir CURR_PERMISSIONS_FILE = some ino →
      files'.dir TEMP_PERMISSIONS_FILE ≠ some ino)
    (hcurrent : ¬ Between (s.moved pid progress' files' permitted').processes →
      ∃ ino, files'.dir CURR_PERMISSIONS_FILE = some ino ∧ Lists (files'.content ino) permitted')
    (hsound : Sound files' permitted' (s.ledger.ever pid ∪ permitted')
      (s.ledger.always pid ∩ permitted') progress') :
    Consistent (s.moved pid progress' files' permitted') := by
  have hothers : ∀ q, q ≠ pid → progress'.temp_in_use → (s.processes.progress q).temp_in_use = false := by
    intro q hq hprogress
    rcases hexclusive hprogress with hpid | hnone
    · exact h.exclusive pid q hq.symm hpid
    · exact hnone q
  refine ⟨fun p q hne hp => ?_, hold, hdistinct, hcurrent, fun q => ?_⟩
  · change (Function.update s.processes.progress pid progress' p).temp_in_use at hp
    show (Function.update s.processes.progress pid progress' q).temp_in_use = false
    by_cases hpp : p = pid
    · subst hpp
      rw [Function.update_self] at hp
      rw [Function.update_of_ne hne.symm]
      exact hothers q hne.symm hp
    · rw [Function.update_of_ne hpp] at hp
      by_cases hq : q = pid
      · subst hq
        rw [Function.update_self]
        by_contra hin_use
        rw [hothers p hne (Bool.eq_true_of_not_eq_false hin_use)] at hp
        cases hp
      · rw [Function.update_of_ne hq]
        exact h.exclusive p q hne hp
  · show Sound _ _ _ _ (Function.update s.processes.progress pid progress' q)
    by_cases hq : q = pid
    · subst hq
      rwa [Function.update_self]
    · rw [Function.update_of_ne hq]
      exact (h.sound q).spared hextends (hspares q hq)

/-- A step that changes neither the files nor the set. -/
theorem Consistent.same_files (h : Consistent s) (hpid : (s.processes.progress pid).between = false)
    (hprogress : progress'.temp_in_use = false)
    (hsound : Sound s.processes.files s.ledger.permitted (s.ledger.ever pid ∪ s.ledger.permitted)
      (s.ledger.always pid ∩ s.ledger.permitted) progress') :
    Consistent (s.moved pid progress' s.processes.files s.ledger.permitted) := by
  exact h.moved (not_temp_in_use hprogress) (Extends.refl ..) (fun _ _ => spares_refl ..) h.old h.distinct
    (fun hbetween => h.current fun hb => hbetween (hb.update hpid _ _)) hsound

end Moves

section Steps

variable {uid : UInt32}

theorem Consistent.append (h : Consistent s) {ino : ℕ}
    (hcurr : s.processes.files.dir CURR_PERMISSIONS_FILE = some ino)
    (hcopy : ∀ q, (s.processes.progress q).copy_made = false) :
    Consistent (s.moved pid .outside (s.processes.files.append ino (fprintf_uint uid))
      (insert uid s.ledger.permitted)) := by
  have hlists : Lists (s.processes.files.content ino) s.ledger.permitted := by
    refine (h.found hcurr).resolve_right fun hfound => ?_
    obtain ⟨⟨p, hp⟩, -⟩ := hfound
    have hmade := copy_made_of_between hp
    rw [hcopy p] at hmade
    cases hmade
  refine h.moved (not_temp_in_use rfl) (extends_append hlists (Finset.mem_insert_self ..))
    (fun q _ => ⟨?_, ?_, ?_⟩) h.old h.distinct (fun _ => ⟨ino, hcurr, ?_⟩) trivial
  · intro _ i hi
    refine ⟨hi, Function.update_of_ne ?_ ..⟩
    rintro rfl
    exact h.distinct i hcurr hi
  · intro hmade
    rw [hcopy q] at hmade
    cases hmade
  · intro hbetween
    have hmade := copy_made_of_between hbetween
    rw [hcopy q] at hmade
    cases hmade
  · rw [Inodes.append_content, Function.update_self]
    exact hlists.append

omit [DecidableEq Pid] in
/-- Whoever has the temporary file open is alone with it. -/
theorem Consistent.alone (h : Consistent s) (hpid : (s.processes.progress pid).temp_in_use)
    (files' : Inodes) (permitted' : Finset UInt32) (q : Pid) (hq : q ≠ pid) :
    Spares s.processes.files files' s.ledger.permitted permitted' (s.processes.progress q) :=
  spares_of_not_in_use _ _ _ _ (h.exclusive pid q hq.symm hpid)

theorem Consistent.fopen_append (h : Consistent s) (hpid : s.processes.progress pid = .not_found uid) :
    let opened := s.processes.files.fopen_append CURR_PERMISSIONS_FILE
    Consistent (s.moved pid (.appending uid opened.1) opened.2 s.ledger.permitted) := by
  have hbetween : (s.processes.progress pid).between = false := by rw [hpid]; rfl
  cases hcurr : s.processes.files.dir CURR_PERMISSIONS_FILE with
  | some ino =>
    simp only [Inodes.fopen_append, hcurr]
    exact h.same_files hbetween rfl trivial
  | none =>
    obtain ⟨ino, files', heq, hold, hdistinct, hextends, hspares⟩ :=
      fopen_append_spec s.processes.files s.ledger.permitted h.old hcurr
    rw [heq]
    refine h.moved (not_temp_in_use rfl) hextends (fun q _ => hspares _) hold hdistinct
      (fun hnot => ?_) trivial
    obtain ⟨i, hi, -⟩ := h.current fun hb => hnot (hb.update hbetween _ _)
    cases hcurr.symm.trans hi

theorem Consistent.fopen_write (h : Consistent s) {fp1 : ℕ}
    (hpid : s.processes.progress pid = .opened uid fp1)
    (hnone : ∀ q, (s.processes.progress q).temp_in_use = false) :
    let opened := s.processes.files.fopen_write TEMP_PERMISSIONS_FILE
    Consistent (s.moved pid (.copying uid fp1 opened.1) opened.2 s.ledger.permitted) := by
  obtain ⟨fp2, files', heq, htemp, hempty, hdir, hold, hcontent, hextends⟩ :=
    fopen_write_spec s.processes.files s.ledger.permitted h.old h.distinct
  rw [heq]
  refine h.moved (fun _ => .inr hnone) hextends (fun q _ => spares_of_not_in_use _ _ _ _ (hnone q)) hold
    (fun ino hino heq => ?_) (fun hnot => ?_) ⟨htemp, hempty⟩
  · exact (hcontent ino hino).1 (Option.some.inj (heq.symm.trans htemp))
  · have hbetween : (s.processes.progress pid).between = false := by rw [hpid]; rfl
    obtain ⟨ino, hino, hlists⟩ := h.current fun hb => hnot (hb.update hbetween _ _)
    have hino' : files'.dir CURR_PERMISSIONS_FILE = some ino := (hdir _ (by decide)).trans hino
    exact ⟨ino, hino', (hcontent ino hino').2 ▸ hlists⟩

theorem Consistent.copy (h : Consistent s) {fp1 fp2 : ℕ}
    (hpid : s.processes.progress pid = .copying uid fp1 fp2)
    (hfp1 : s.processes.files.dir CURR_PERMISSIONS_FILE = some fp1) :
    Consistent (s.moved pid (.copied uid) (s.processes.files.write fp2 (delete_loop uid
      (s.processes.files.content fp1).length (s.processes.files.content fp1))) s.ledger.permitted) := by
  have hin_use : (s.processes.progress pid).temp_in_use := by rw [hpid]; rfl
  obtain ⟨htemp, hempty⟩ : Sound s.processes.files s.ledger.permitted (s.ledger.ever pid)
      (s.ledger.always pid) (.copying uid fp1 fp2) := hpid ▸ h.sound pid
  obtain ⟨ino, hino, hlists⟩ := h.current (h.not_between hin_use (by rw [hpid]; rfl))
  obtain rfl : ino = fp1 := Option.some.inj (hino.symm.trans hfp1)
  have hne : ino ≠ fp2 := fun heq => h.distinct ino hfp1 (heq ▸ htemp)
  refine h.moved (fun _ => .inl hin_use) (extends_write htemp _) (h.alone hin_use _ _) h.old h.distinct
    (fun _ => ⟨ino, hfp1, ?_⟩) ⟨fp2, htemp, ?_⟩
  · rw [Inodes.write_content, Function.update_of_ne hne]
    exact hlists
  · rw [Inodes.write_content, Function.update_self, hempty, List.drop_nil, List.append_nil]
    exact hlists.delete

theorem Consistent.remove (h : Consistent s) (hpid : s.processes.progress pid = .copied uid) :
    Consistent (s.moved pid (.removed uid) (s.processes.files.remove CURR_PERMISSIONS_FILE)
      s.ledger.permitted) := by
  have hin_use : (s.processes.progress pid).temp_in_use := by rw [hpid]; rfl
  have hcopied : Copied s.processes.files (s.ledger.permitted.erase uid) := by
    have hsound := h.sound pid
    rwa [hpid] at hsound
  have hcurr : (s.processes.files.remove CURR_PERMISSIONS_FILE).dir CURR_PERMISSIONS_FILE = none := by
    rw [Inodes.remove_dir, Function.update_self]
  refine h.moved (fun _ => .inl hin_use) (extends_remove _) (h.alone hin_use _ _) (fun path ino hino => ?_)
    (fun ino hino => ?_) (fun hnot => absurd ⟨pid, ?_⟩ hnot) ⟨hcopied, fun ino hino => ?_⟩
  · rw [Inodes.remove_dir, Function.update_apply] at hino
    split_ifs at hino
    exact h.old path ino hino
  · cases hcurr.symm.trans hino
  · cases hcurr.symm.trans hino
  · show (Function.update s.processes.progress pid (.removed uid) pid).between
    rw [Function.update_self]
    rfl

theorem Consistent.rename (h : Consistent s) (hpid : s.processes.progress pid = .removed uid) :
    Consistent (s.moved pid .outside
      (s.processes.files.rename TEMP_PERMISSIONS_FILE CURR_PERMISSIONS_FILE)
      (s.ledger.permitted.erase uid)) := by
  have hin_use : (s.processes.progress pid).temp_in_use := by rw [hpid]; rfl
  obtain ⟨⟨ino, htemp, hlists⟩, -⟩ : Sound s.processes.files s.ledger.permitted (s.ledger.ever pid)
      (s.ledger.always pid) (.removed uid) := hpid ▸ h.sound pid
  refine h.moved (not_temp_in_use rfl) (extends_rename _) (h.alone hin_use _ _) (fun path i hi => ?_)
    (fun i _ hi => ?_) (fun _ => ⟨ino, htemp, hlists⟩) trivial
  · simp only [Inodes.rename_dir, Function.update_apply] at hi
    split_ifs at hi
    · exact h.old _ i hi
    · exact h.old _ i hi
  · rw [Inodes.rename_dir, Function.update_self] at hi
    cases hi

/-- Where a search ends, no file is open. -/
theorem Consistent.search_ends (h : Consistent s) (function : UidFunction) (uid : UInt32) (found : Int)
    (hpid : (s.processes.progress pid).between = false) :
    Consistent (s.moved pid (after_search function uid found).2 s.processes.files s.ledger.permitted) := by
  unfold after_search
  cases function with
  | check => exact h.same_files hpid rfl trivial
  | add_uid =>
    dsimp only
    split_ifs
    · exact h.same_files hpid rfl trivial
    · exact h.same_files hpid rfl trivial
  | del_uid =>
    dsimp only
    split_ifs
    · exact h.same_files hpid rfl trivial
    · exact h.same_files hpid rfl trivial

theorem reported_none (function : Option (UidFunction × UInt32)) (ever always : Finset UInt32) :
    Reported function none ever always := by
  rcases function with _ | ⟨_ | _ | _, uid⟩ <;> trivial

theorem reported_search {function : UidFunction} {found : Int} {ever always : Finset UInt32}
    (hfound : found = 0 → uid ∈ ever) (hnot : function ≠ .add_uid → found ≠ 0 → uid ∉ always) :
    Reported (some (function, uid)) (after_search function uid found).1 ever always := by
  unfold after_search
  cases function with
  | check =>
    intro halways
    by_contra hne
    exact hnot (by decide) hne halways
  | add_uid =>
    dsimp only
    split_ifs with hzero
    · exact fun _ => hfound hzero
    · trivial
  | del_uid =>
    dsimp only
    split_ifs with hzero
    · exact fun _ => hnot (by decide) hzero
    · trivial

/-- The steps that change what the current permissions file lists. -/
def Progress.writes : Progress → Bool
  | .appending .. | .removed _ => true
  | _ => false

theorem effect_of_not_writes {progress : Progress} {retval : Option Int} {permitted : Finset UInt32}
    (h : progress.writes = false) : effect progress retval permitted = permitted := by
  cases progress with
  | appending | removed => cases h
  | _ => exact ite_self _

/-- A function opens the current permissions file, or finds that there is none. -/
theorem Consistent.open_current (h : Consistent s) {function : UidFunction} {uid : UInt32} {succeeds : Bool}
    {retval : Option Int} {progress' : Progress} {files' : Inodes}
    (hpid : s.processes.progress pid = .entered function uid)
    (hundisturbed : StepUndisturbed s.processes succeeds (.entered function uid))
    (hadvance : permissions.advance succeeds s.processes.files (.entered function uid) =
      ((retval, progress'), files')) :
    Consistent (s.moved pid progress' files' s.ledger.permitted) ∧
    Reported (some (function, uid)) retval (s.ledger.ever pid ∪ s.ledger.permitted)
      (s.ledger.always pid ∩ s.ledger.permitted) := by
  have hbetween : (s.processes.progress pid).between = false := by rw [hpid]; rfl
  simp only [permissions.advance] at hadvance
  -- a file that cannot be opened is none that lists the uid
  have hmissing : ¬ (succeeds ∧ ∃ ino, s.processes.files.dir CURR_PERMISSIONS_FILE = some ino) →
      (after_search function uid 2, s.processes.files) = ((retval, progress'), files') →
      Consistent (s.moved pid progress' files' s.ledger.permitted) ∧
      Reported (some (function, uid)) retval (s.ledger.ever pid ∪ s.ledger.permitted)
        (s.ledger.always pid ∩ s.ledger.permitted) := by
    intro hnot hsearched
    have hadd : function = .add_uid := by
      refine hundisturbed.resolve_right fun hopens => hnot ⟨hopens.1, ?_⟩
      obtain ⟨ino, hcurr, -⟩ := h.current hopens.2
      exact ⟨ino, hcurr⟩
    subst hadd
    cases hsearched
    exact ⟨h.search_ends .add_uid uid 2 hbetween, trivial⟩
  split at hadvance
  · next ino hcurr =>
    split_ifs at hadvance with hsucceeds
    · cases hadvance
      refine ⟨h.same_files hbetween rfl ⟨h.old _ _ hcurr, h.distinct _ hcurr, ?_⟩, reported_none ..⟩
      rcases h.found hcurr with hlists | ⟨hwindow, hempty⟩
      · rw [hlists.uids]
        exact ⟨hlists.wellFormed, fun _ hmem => (Finset.mem_inter.mp hmem).2,
          fun hmem => Finset.mem_union_right _ hmem⟩
      · have hadd : function = .add_uid := hundisturbed.resolve_right fun hopens => hopens.2 hwindow
        rw [hempty]
        exact ⟨nofun, fun hcheck => absurd hadd hcheck, nofun⟩
    · exact hmissing (fun hopens => hsucceeds hopens.1) hadvance
  · next hcurr =>
    refine hmissing (fun hopens => ?_) hadvance
    obtain ⟨-, ino, hino⟩ := hopens
    cases hcurr.symm.trans hino

theorem Consistent.advance (h : Consistent s) {succeeds : Bool} {retval : Option Int}
    {progress progress' : Progress} {files' : Inodes} (hpid : s.processes.progress pid = progress)
    (houtside : progress ≠ .outside) (hundisturbed : StepUndisturbed s.processes succeeds progress)
    (hadvance : advance succeeds s.processes.files progress = ((retval, progress'), files')) :
    Consistent (s.moved pid progress' files' (effect progress retval s.ledger.permitted)) ∧
    Reported progress.function retval (s.ledger.ever pid ∪ effect progress retval s.ledger.permitted)
      (s.ledger.always pid ∩ effect progress retval s.ledger.permitted) := by
  have hsound := h.sound pid
  rw [hpid] at hsound
  cases progress with
  | outside => exact absurd rfl houtside
  | entered function uid =>
    rw [effect_of_not_writes rfl]
    exact h.open_current hpid hundisturbed hadvance
  | searching function uid ino =>
    have hbetween : (s.processes.progress pid).between = false := by rw [hpid]; rfl
    obtain ⟨-, -, hwf, halways, hever⟩ := hsound
    have hsearch : search_loop uid (s.processes.files.content ino).length
        (s.processes.files.content ino) = 0 ↔ _ := search_loop_zero_iff hwf
    rw [effect_of_not_writes rfl]
    obtain ⟨hsearched, rfl⟩ := Prod.mk.inj hadvance
    generalize search_loop uid (s.processes.files.content ino).length (s.processes.files.content ino) = found
      at hsearched hsearch
    obtain ⟨rfl, rfl⟩ := Prod.mk.inj hsearched
    refine ⟨h.search_ends function uid found hbetween, reported_search (fun hzero => ?_) fun hcheck hne hmem => ?_⟩
    · exact Finset.mem_union_left _ (hever (hsearch.mp hzero))
    · exact hne (hsearch.mpr (halways hcheck (Finset.mem_inter.mp hmem).1))
  | not_found uid =>
    rw [effect_of_not_writes rfl]
    simp only [permissions.advance] at hadvance
    split_ifs at hadvance
    · cases hadvance
      exact ⟨h.fopen_append hpid, trivial⟩
    · cases hadvance
      exact ⟨h.same_files (by rw [hpid]; rfl) rfl trivial, nofun⟩
  | appending uid ino =>
    cases hadvance
    refine ⟨h.append hundisturbed.1 hundisturbed.2, fun _ => ?_⟩
    exact Finset.mem_union_right _ (Finset.mem_insert_self ..)
  | found uid =>
    have hbetween : (s.processes.progress pid).between = false := by rw [hpid]; rfl
    rw [effect_of_not_writes rfl]
    simp only [permissions.advance] at hadvance
    split at hadvance
    · split_ifs at hadvance
      · cases hadvance
        exact ⟨h.same_files hbetween rfl trivial, trivial⟩
      · cases hadvance
        exact ⟨h.same_files hbetween rfl trivial, nofun⟩
    · cases hadvance
      exact ⟨h.same_files hbetween rfl trivial, nofun⟩
  | opened uid fp1 =>
    rw [effect_of_not_writes rfl]
    simp only [permissions.advance] at hadvance
    split_ifs at hadvance with hsucceeds
    · cases hadvance
      exact ⟨h.fopen_write hpid (hundisturbed hsucceeds), trivial⟩
    · cases hadvance
      exact ⟨h.same_files (by rw [hpid]; rfl) rfl trivial, nofun⟩
  | copying uid fp1 fp2 =>
    cases hadvance
    exact ⟨h.copy hpid hundisturbed, trivial⟩
  | copied uid =>
    rw [effect_of_not_writes rfl]
    simp only [permissions.advance] at hadvance
    split_ifs at hadvance
    · cases hadvance
      exact ⟨h.remove hpid, trivial⟩
    · cases hadvance
      exact ⟨h.same_files (by rw [hpid]; rfl) rfl trivial, nofun⟩
  | removed uid =>
    obtain ⟨ino, htemp, -⟩ := hsound.1
    simp only [permissions.advance] at hadvance
    rw [if_pos ⟨hundisturbed, by rw [htemp]; exact Option.some_ne_none _⟩] at hadvance
    cases hadvance
    refine ⟨h.rename hpid, fun _ hmem => ?_⟩
    exact Finset.notMem_erase uid _ (Finset.mem_inter.mp hmem).2

/-- A process that calls a function or dies has no files open. -/
theorem Consistent.at_rest (h : Consistent s) {progress' : Progress} {ledger' : Ledger Pid}
    (hprogress : progress'.temp_in_use = false) (hpid : (s.processes.progress pid).between = false)
    (hpermitted : ledger'.permitted = s.ledger.permitted)
    (hsound : Sound s.processes.files s.ledger.permitted (ledger'.ever pid) (ledger'.always pid) progress')
    (hothers : ∀ q, q ≠ pid → ledger'.ever q = s.ledger.ever q ∧ ledger'.always q = s.ledger.always q) :
    Consistent {
      processes := { s.processes with progress := Function.update s.processes.progress pid progress' }
      ledger := ledger' } := by
  have hold : ∀ p, (Function.update s.processes.progress pid progress' p).temp_in_use →
      p ≠ pid ∧ (s.processes.progress p).temp_in_use := by
    intro p hp
    rw [Function.update_apply] at hp
    split_ifs at hp with heq
    · rw [hprogress] at hp
      cases hp
    · exact ⟨heq, hp⟩
  refine ⟨fun p q hne hp => ?_, h.old, h.distinct, fun hbetween => ?_, fun q => ?_⟩
  · by_contra hq
    obtain ⟨-, hp⟩ := hold p hp
    obtain ⟨-, hq⟩ := hold q (Bool.eq_true_of_not_eq_false hq)
    rw [h.exclusive p q hne hp] at hq
    cases hq
  · show ∃ ino, _ ∧ Lists _ ledger'.permitted
    rw [hpermitted]
    exact h.current fun hb => hbetween (hb.update hpid _ _)
  · show Sound _ ledger'.permitted _ _ (Function.update s.processes.progress pid progress' q)
    rw [hpermitted]
    by_cases hq : q = pid
    · subst hq
      rwa [Function.update_self]
    · rw [Function.update_of_ne hq, (hothers q hq).1, (hothers q hq).2]
      exact h.sound q

theorem Consistent.step (h : Consistent s) {step : ProcessAction Pid × Option Int}
    (hstep : RecordedStep s step s') (hundisturbed : Undisturbed s step s') :
    Consistent s' ∧ ReportsTrue s step s' := by
  obtain ⟨a, retval⟩ := step
  obtain ⟨⟨retval', processes⟩, hperform, heq⟩ := Option.map_eq_some_iff.mp hstep
  obtain ⟨rfl, rfl⟩ := Prod.mk.inj heq
  cases a with
  | call pid function uid =>
    simp only [perform_action] at hperform
    split_ifs at hperform with hpid
    cases hperform
    refine ⟨h.at_rest rfl (by rw [hpid]; rfl) rfl ?_ fun q hq => ?_, reported_none ..⟩
    · simp [Ledger.record, Sound]
    · simp [Ledger.record, Function.update_of_ne hq]
  | step pid succeeds =>
    simp only [perform_action] at hperform
    split_ifs at hperform with hpid
    cases hperform
    exact h.advance rfl hpid hundisturbed rfl
  | die pid =>
    cases hperform
    exact ⟨h.at_rest rfl hundisturbed rfl trivial fun _ _ => ⟨rfl, rfl⟩, reported_none ..⟩

end Steps

/-- Every state reached has the effects of the updates reported in the file, unless a deletion has
just removed it, and every function returns what is true of the set. -/
theorem updates_kept (s : Recorded Pid) (hinitial : Initial s)
    (run : List ((ProcessAction Pid × Option Int) × Recorded Pid)) (hrun : EachStep RecordedStep s run)
    (hundisturbed : EachStep Undisturbed s run) :
    EachStep (fun s step s' => (¬ Between s'.processes → InFile s') ∧ ReportsTrue s step s') s run := by
  refine (hrun.and hundisturbed).of_invariant hinitial.consistent ?_
  intro s step s' ⟨hstep, hundisturbed⟩ h
  obtain ⟨h', hreports⟩ := h.step hstep hundisturbed
  exact ⟨h', h'.inFile, hreports⟩

/-- Two administrators before they call a function; the current permissions file is as given. -/
def two_processes (current : List Char) : Recorded (Fin 2) where
  processes := {
    files := {
      dir := Function.update (fun _ => none) CURR_PERMISSIONS_FILE (some 0)
      content := fun _ => current
      next := 1 }
    progress := fun _ => .outside }
  ledger := { permitted := uids current, ever := fun _ => ∅, always := fun _ => ∅ }

theorem two_processes_initial {current : List Char} (hwf : WellFormed current)
    (hnewline : NewlineTerminated current) : Initial (two_processes current) where
  outside _ := rfl
  linked := by
    refine ⟨fun path ino hino => ?_, fun path path' ino hino hino' => ?_⟩
    · simp only [two_processes, Function.update_apply] at hino
      split_ifs at hino
      cases hino
      exact Nat.one_pos
    · simp only [two_processes, Function.update_apply] at hino hino'
      split_ifs at hino hino' with hpath hpath'
      rw [hpath, hpath']
  current := ⟨0, rfl, hwf, hnewline⟩
  ledger := rfl

/-- One process adds 7 and deletes 5 while the other looks for both; a deletion of 7 dies. -/
theorem updates_kept_two_processes :
    let s := two_processes ['5', '\n']
    let run := run_calls perform_recorded [.call 0 .add_uid 7, .call 1 .check 5, .step 1 true, .step 0 true,
      .step 0 true, .step 0 true, .step 0 true, .step 1 true, .call 0 .del_uid 5, .step 0 true,
      .step 0 true, .step 0 true, .step 0 true, .call 1 .check 7, .step 1 true, .step 0 true,
      .step 0 true, .step 0 true, .step 1 true, .call 1 .del_uid 7, .step 1 true, .step 1 true,
      .step 1 true, .step 1 true, .step 1 true, .die 1] s
    run.length = 26 ∧
      EachStep (fun s step s' => (¬ Between s'.processes → InFile s') ∧ ReportsTrue s step s') s run := by
  intro s run
  refine ⟨by decide +kernel, ?_⟩
  exact updates_kept s (two_processes_initial (by decide) (by decide)) run (eachStep_run_calls _ _ _)
    (by decide +kernel)

/-- What is added behind the copy of a deletion is lost with the file that the deletion removes. -/
theorem addition_is_lost :
    ¬ ∀ (s : Recorded (Fin 2)) (run : List ((ProcessAction (Fin 2) × Option Int) × Recorded (Fin 2))),
      Initial s → EachStep RecordedStep s run →
      (∀ x ∈ run, ∀ pid, x.1.1 ≠ .step pid false ∧ x.1.1 ≠ .die pid) →
      EachStep (fun s step s' => (¬ Between s'.processes → InFile s') ∧ ReportsTrue s step s') s run := by
  intro h
  have hrun := h (two_processes ['5', '\n']) _ (two_processes_initial (by decide) (by decide))
    (eachStep_run_calls perform_recorded _ [.call 0 .del_uid 5, .step 0 true, .step 0 true, .step 0 true,
      .step 0 true, .step 0 true, .call 1 .add_uid 7, .step 1 true, .step 1 true, .step 1 true,
      .step 1 true, .step 0 true, .step 0 true]) (by decide +kernel)
  have hfile := hrun.imp fun _ _ _ hkept => hkept.1
  exact absurd hfile (by decide +kernel)

end pwrapi.permissions
