import PowerApi.Common.Permissions

open Words Execution

namespace pwrapi.permissions

open PermissionsFile

/-- The uid that a word of digits denotes. -/
def uid_of_word (word : List Char) : Option UInt32 :=
  if word.all Char.isDigit && Nat.ofDigitChars 10 word 0 < 2 ^ 32 then
    some (UInt32.ofNat (Nat.ofDigitChars 10 word 0))
  else none

/-- The uids listed in a file, in their order. -/
def uid_list (content : List Char) : List UInt32 := (words isspace content).filterMap uid_of_word

/-- The set of uids that a file denotes. -/
def uids (content : List Char) : Finset UInt32 := (uid_list content).toFinset

/-- A list of uids separated by white space. -/
def WellFormed (content : List Char) : Prop :=
  ∀ word ∈ words isspace content, (uid_of_word word).isSome

instance (content : List Char) : Decidable (WellFormed content) :=
  inferInstanceAs (Decidable (∀ word ∈ _, _))

section Characters

variable {c : Char} {word : List Char} {uid : UInt32}

theorem isDigit_not_isspace (h : c.isDigit) : isspace c = false := by
  have hlo : 48 ≤ c.toNat := by
    have hc := (Bool.and_eq_true_iff.mp h).1
    simpa [UInt32.le_iff_toNat_le] using hc
  have hspace : c ≠ ' ' := by
    rintro rfl
    exact absurd hlo (by decide)
  simp only [isspace, hspace, decide_false, Bool.false_or, Bool.and_eq_false_iff, decide_eq_false_iff_not]
  omega

theorem isspace_not_isDigit (h : isspace c) : c.isDigit = false := by
  by_contra hdigit
  rw [isDigit_not_isspace (by simpa using hdigit)] at h
  exact absurd h (by decide)

theorem uid_of_word_eq_some : uid_of_word word = some uid ↔
    (∀ c ∈ word, c.isDigit) ∧ Nat.ofDigitChars 10 word 0 = uid.toNat := by
  have hlt := uid.toNat_lt
  rw [uid_of_word]
  constructor
  · intro h
    split at h
    · next hword =>
      simp only [Bool.and_eq_true, List.all_eq_true, decide_eq_true_eq] at hword
      rw [Option.some.injEq] at h
      refine ⟨hword.1, ?_⟩
      rw [← h, UInt32.toNat_ofNat', Nat.mod_eq_of_lt hword.2]
    · cases h
  · rintro ⟨hdigits, hvalue⟩
    rw [if_pos (by simpa [hvalue] using ⟨hdigits, hlt⟩), hvalue, UInt32.ofNat_toNat]

theorem uid_of_word_digits (uid : UInt32) : uid_of_word (Nat.toDigits 10 uid.toNat) = some uid := by
  rw [uid_of_word_eq_some]
  refine ⟨fun c hc => Nat.isDigit_of_mem_toDigits (by decide) (by decide) hc, ?_⟩
  exact Nat.ofDigitChars_ten_toDigits

end Characters

section Scan

variable {s rest : List Char} {uid : UInt32}

theorem scan_sign_length (s : List Char) : (scan_sign s).2.length ≤ s.length := by
  unfold scan_sign
  split <;> simp

theorem scan_sign_of_isDigit {c : Char} (h : c.isDigit) : scan_sign (c :: s) = (false, c :: s) := by
  unfold scan_sign
  split
  · next heq =>
    obtain ⟨rfl, -⟩ := List.cons.inj heq
    exact absurd h (by decide)
  · next heq =>
    obtain ⟨rfl, -⟩ := List.cons.inj heq
    exact absurd h (by decide)
  · rfl

theorem fscanf_uint_length (h : fscanf_uint s = some (uid, rest)) : rest.length < s.length := by
  have hspace := (List.dropWhile_suffix isspace (l := s)).length_le
  have hsign := scan_sign_length (s.dropWhile isspace)
  unfold fscanf_uint at h
  generalize scan_sign (s.dropWhile isspace) = scanned at h hsign
  obtain ⟨negative, t⟩ := scanned
  simp only at h hsign
  split at h
  · cases h
  · next hdigits =>
    obtain ⟨-, rfl⟩ := Prod.mk.inj (Option.some.inj h)
    have hsplit := congrArg List.length (List.takeWhile_append_dropWhile (p := Char.isDigit) (l := t))
    have hpos := List.length_pos_iff.mpr (mt List.isEmpty_iff.mpr hdigits)
    rw [List.length_append] at hsplit
    omega

theorem strtoul_of_value {digits : List Char} (h : Nat.ofDigitChars 10 digits 0 = uid.toNat) :
    (strtoul false digits).toUInt32 = uid := by
  have hlt : uid.toNat < 2 ^ 64 := Nat.lt_trans uid.toNat_lt (by decide)
  simp only [strtoul, h, if_neg (Nat.not_le_of_lt hlt), Bool.false_eq_true, if_false]
  simp

theorem fscanf_uint_of_word {word : List Char} (hs : s.dropWhile isspace = word ++ rest) (hne : word ≠ [])
    (hdigits : ∀ c ∈ word, c.isDigit) (hstop : ∀ c ∈ rest.head?, isspace c) :
    fscanf_uint s = some ((strtoul false word).toUInt32, rest) := by
  have hsign : scan_sign (word ++ rest) = (false, word ++ rest) := by
    obtain ⟨c, w, rfl⟩ := List.exists_cons_of_ne_nil hne
    exact scan_sign_of_isDigit (hdigits c (by simp))
  have hrest_take : rest.takeWhile Char.isDigit = [] := by
    cases rest with
    | nil => rfl
    | cons c r => simp [isspace_not_isDigit (hstop c rfl)]
  have hrest_drop : rest.dropWhile Char.isDigit = rest := by
    cases rest with
    | nil => rfl
    | cons c r => simp [isspace_not_isDigit (hstop c rfl)]
  have htake : (word ++ rest).takeWhile Char.isDigit = word := by
    rw [List.takeWhile_append_of_pos hdigits, hrest_take, List.append_nil]
  have hdrop : (word ++ rest).dropWhile Char.isDigit = rest := by
    rw [List.dropWhile_append_of_pos hdigits, hrest_drop]
  simp [fscanf_uint, hs, hsign, htake, hdrop, hne]

/-- On a list of uids `fscanf` reads the first one and stops behind it. -/
theorem fscanf_uint_cases (h : WellFormed s) :
    (uid_list s = [] ∧ fscanf_uint s = none) ∨
    ∃ uid rest, uid_list s = uid :: uid_list rest ∧ fscanf_uint s = some (uid, rest) ∧ WellFormed rest := by
  cases hwords : words isspace s with
  | nil =>
    refine Or.inl ⟨by rw [uid_list, hwords, List.filterMap_nil], ?_⟩
    simp [fscanf_uint, scan_sign, scan_end hwords]
  | cons word rest_words =>
    obtain ⟨rest, hs, hrest, hstop⟩ := scan_word hwords
    have hword : (uid_of_word word).isSome := h word (by simp [hwords])
    obtain ⟨uid, huid⟩ := Option.isSome_iff_exists.mp hword
    obtain ⟨hdigits, hvalue⟩ := uid_of_word_eq_some.mp huid
    refine Or.inr ⟨uid, rest, ?_, ?_, ?_⟩
    · rw [uid_list, hwords, List.filterMap_cons_some huid, ← hrest, uid_list]
    · have hne : word ≠ [] := ne_nil_of_mem_words (by rw [hwords]; exact List.mem_cons_self)
      rw [fscanf_uint_of_word hs hne hdigits hstop, strtoul_of_value hvalue]
    · intro w hw
      exact h w (by rw [hwords, ← hrest]; exact List.mem_cons_of_mem _ hw)

/-- The numbers that successive calls of `fscanf` read from a file of at most `fuel` characters. -/
def read_uints : Nat → List Char → List UInt32
  | 0, _ => []
  | fuel + 1, s =>
    match fscanf_uint s with
    | none => []
    | some (current, rest) => current :: read_uints fuel rest

theorem search_loop_eq (key : UInt32) (fuel : Nat) (s : List Char) :
    search_loop key fuel s = if key ∈ read_uints fuel s then 0 else 1 := by
  induction fuel generalizing s with
  | zero => rfl
  | succ fuel ih =>
    unfold search_loop read_uints
    cases fscanf_uint s with
    | none => rfl
    | some read =>
      obtain ⟨current, rest⟩ := read
      by_cases hkey : key = current
      · simp [hkey]
      · simp [hkey, ih rest]

theorem delete_loop_eq (uid : UInt32) (fuel : Nat) (s : List Char) :
    delete_loop uid fuel s = ((read_uints fuel s).filter (uid ≠ ·)).flatMap fprintf_uint := by
  induction fuel generalizing s with
  | zero => rfl
  | succ fuel ih =>
    unfold delete_loop read_uints
    cases fscanf_uint s with
    | none => rfl
    | some read =>
      obtain ⟨current, rest⟩ := read
      by_cases huid : uid = current
      · subst huid
        simp [ih rest]
      · simp [huid, ih rest]

/-- The loops end at the end of the file, not by running out of fuel. -/
theorem read_uints_enough {fuel : Nat} (h : s.length ≤ fuel) :
    read_uints fuel s = read_uints (fuel + 1) s := by
  induction fuel generalizing s with
  | zero =>
    obtain rfl := List.length_eq_zero_iff.mp (Nat.le_zero.mp h)
    rfl
  | succ fuel ih =>
    unfold read_uints
    cases hread : fscanf_uint s with
    | none => rfl
    | some read =>
      obtain ⟨current, rest⟩ := read
      have hrest : rest.length ≤ fuel := Nat.le_of_lt_succ (Nat.lt_of_lt_of_le (fscanf_uint_length hread) h)
      simp only [ih hrest]

theorem read_uints_of_wellFormed {fuel : Nat} (hwf : WellFormed s) (h : s.length ≤ fuel) :
    read_uints fuel s = uid_list s := by
  induction fuel generalizing s with
  | zero =>
    obtain rfl := List.length_eq_zero_iff.mp (Nat.le_zero.mp h)
    rfl
  | succ fuel ih =>
    unfold read_uints
    obtain ⟨hnil, hread⟩ | ⟨uid, rest, hcons, hread, hrest⟩ := fscanf_uint_cases hwf
    · simp only [hread, hnil]
    · have hlen : rest.length ≤ fuel :=
        Nat.le_of_lt_succ (Nat.lt_of_lt_of_le (fscanf_uint_length hread) h)
      simp only [hread, hcons, ih hrest hlen]

end Scan

section Copy

variable {s line rest : List Char}

theorem fgets_append (n : Nat) (s : List Char) : (fgets n s).1 ++ (fgets n s).2 = s := by
  fun_induction fgets n s with
  | case1 s => rfl
  | case2 => rfl
  | case3 n s => rfl
  | case4 n c s hc line rest hline ih =>
    rw [hline] at ih
    simpa using ih

theorem fgets_nonempty (n : Nat) (hne : s ≠ []) : (fgets (n + 1) s).1 ≠ [] := by
  obtain ⟨c, r, rfl⟩ := List.exists_cons_of_ne_nil hne
  unfold fgets
  split <;> simp

/-- A file without NUL is copied whole. -/
theorem copy_loop_eq (hnul : Char.ofNat 0 ∉ s) {fuel : Nat} (h : s.length ≤ fuel) : copy_loop fuel s = s := by
  induction fuel generalizing s with
  | zero =>
    obtain rfl := List.length_eq_zero_iff.mp (Nat.le_zero.mp h)
    rfl
  | succ fuel ih =>
    unfold copy_loop
    by_cases hs : s = []
    · subst hs
      rfl
    · have hsplit := fgets_append 31 s
      have hline : (fgets 31 s).1 ≠ [] := fgets_nonempty 30 hs
      generalize fgets 31 s = read at hsplit hline
      obtain ⟨line, rest⟩ := read
      simp only at hsplit hline ⊢
      subst hsplit
      rw [List.mem_append, not_or] at hnul
      have hputs : fputs line = line := by
        rw [fputs, List.takeWhile_eq_self_iff]
        intro c hc
        simpa using fun hzero : c = Char.ofNat 0 => hnul.1 (hzero ▸ hc)
      have hlen : rest.length ≤ fuel := by
        have hpos := List.length_pos_iff.mpr hline
        rw [List.length_append] at h
        omega
      rw [if_neg (by simpa using hline), hputs, ih hnul.2 hlen]

theorem WellFormed.nul_not_mem (h : WellFormed s) : Char.ofNat 0 ∉ s := by
  intro hmem
  have hword : Char.ofNat 0 ∈ (words isspace s).flatten := by
    rw [flatten_words]
    exact List.mem_filter.mpr ⟨hmem, by decide⟩
  obtain ⟨word, hin, hnul⟩ := List.mem_flatten.mp hword
  obtain ⟨uid, huid⟩ := Option.isSome_iff_exists.mp (h word hin)
  exact absurd ((uid_of_word_eq_some.mp huid).1 _ hnul) (by decide)

end Copy

section Effects

variable {content : List Char} {uid : UInt32}

theorem isspace_newline : isspace '\n' := by decide

theorem mem_uids : uid ∈ uids content ↔ uid ∈ uid_list content := List.mem_toFinset

theorem digits_no_space : ∀ c ∈ Nat.toDigits 10 uid.toNat, isspace c = false := fun _ hc =>
  isDigit_not_isspace (Nat.isDigit_of_mem_toDigits (by decide) (by decide) hc)

/-- The words of a list that a loop prints are the numbers printed. -/
theorem words_printed (uids : List UInt32) :
    words isspace (uids.flatMap fprintf_uint) = uids.map fun uid => Nat.toDigits 10 uid.toNat := by
  induction uids with
  | nil => rfl
  | cons uid uids ih =>
    rw [List.flatMap_cons, fprintf_uint, List.append_assoc, List.singleton_append,
      words_append_cons isspace_newline, words_of_no_sep digits_no_space Nat.toDigits_ne_nil, ih,
      List.map_cons, List.singleton_append]

theorem uid_list_printed (uids : List UInt32) : uid_list (uids.flatMap fprintf_uint) = uids := by
  rw [uid_list, words_printed, List.filterMap_map]
  exact (List.filterMap_congr fun uid _ => uid_of_word_digits uid).trans List.filterMap_some

theorem wellFormed_printed (uids : List UInt32) : WellFormed (uids.flatMap fprintf_uint) := by
  intro word hword
  rw [words_printed] at hword
  obtain ⟨uid, -, rfl⟩ := List.mem_map.mp hword
  rw [uid_of_word_digits]
  rfl

/-- A printed uid joins what stands behind the last white space. -/
theorem words_add :
    words isspace (content ++ fprintf_uint uid) = words isspace (before_last_word isspace content) ++
      [last_word isspace content ++ Nat.toDigits 10 uid.toNat] :=
  words_append_word isspace_newline digits_no_space Nat.toDigits_ne_nil

theorem uid_list_add : uid_list (content ++ fprintf_uint uid) = uid_list (before_last_word isspace content) ++
    (uid_of_word (last_word isspace content ++ Nat.toDigits 10 uid.toNat)).toList := by
  rw [uid_list, words_add, List.filterMap_append, List.filterMap_cons, uid_list]
  cases uid_of_word (last_word isspace content ++ Nat.toDigits 10 uid.toNat) <;> rfl

/-- The list can be appended to: it is empty or ends in white space, or what it ends
in is a zero, and zero is listed before. -/
def Appendable (content : List Char) : Prop :=
  last_word isspace content = [] ∨
    uid_of_word (last_word isspace content) = some 0 ∧ 0 ∈ uids (before_last_word isspace content)

instance (content : List Char) : Decidable (Appendable content) := inferInstanceAs (Decidable (_ ∨ _))

theorem uid_of_word_append {word : List Char} {v w : UInt32} (h : uid_of_word word = some v) :
    uid_of_word (word ++ Nat.toDigits 10 uid.toNat) = some w ↔
      10 ^ (Nat.toDigits 10 uid.toNat).length * v.toNat + uid.toNat = w.toNat := by
  obtain ⟨hdigits, hvalue⟩ := uid_of_word_eq_some.mp h
  rw [uid_of_word_eq_some, Nat.ofDigitChars_append, hvalue, Nat.ofDigitChars_eq_ofDigitChars_zero,
    Nat.ofDigitChars_ten_toDigits]
  refine and_iff_right fun c hc => ?_
  rcases List.mem_append.mp hc with hc | hc
  · exact hdigits c hc
  · exact Nat.isDigit_of_mem_toDigits (by decide) (by decide) hc

theorem uid_of_word_append_self {word : List Char} {v : UInt32} (h : uid_of_word word = some v) :
    uid_of_word (word ++ Nat.toDigits 10 uid.toNat) = some uid ↔ v = 0 := by
  rw [uid_of_word_append h, Nat.add_eq_right, Nat.mul_eq_zero, ← UInt32.toNat_inj]
  exact or_iff_right (Nat.ne_of_gt (Nat.pow_pos (by decide)))

theorem WellFormed.last_word (h : WellFormed content) (hne : last_word isspace content ≠ []) :
    ∃ v, uid_of_word (Words.last_word isspace content) = some v ∧
      uid_list content = uid_list (before_last_word isspace content) ++ [v] := by
  have hwords : words isspace content =
      words isspace (before_last_word isspace content) ++ [Words.last_word isspace content] := by
    rw [words_eq_last_word, words_of_no_sep last_word_no_sep hne]
  obtain ⟨v, hv⟩ := Option.isSome_iff_exists.mp (h (Words.last_word isspace content) (by simp [hwords]))
  refine ⟨v, hv, ?_⟩
  rw [uid_list, hwords, List.filterMap_append, List.filterMap_cons_some hv, List.filterMap_nil, uid_list]

theorem uid_list_before (h : last_word isspace content = []) :
    uid_list content = uid_list (before_last_word isspace content) := by
  rw [uid_list, words_eq_last_word, h, words_nil, List.append_nil, uid_list]

/-- Appending a new uid adds it to the set, and it alone, exactly where the list can be appended to. -/
theorem uids_add_iff (hwf : WellFormed content) (hnew : uid ∉ uids content) :
    uids (content ++ fprintf_uint uid) = insert uid (uids content) ↔ Appendable content := by
  by_cases hlast : last_word isspace content = []
  · refine iff_of_true ?_ (Or.inl hlast)
    ext w
    simp [mem_uids, uid_list_add, uid_list_before hlast, hlast, uid_of_word_digits, or_comm]
  · obtain ⟨v, hv, hlist⟩ := hwf.last_word hlast
    have hself : uid_of_word (last_word isspace content ++ Nat.toDigits 10 uid.toNat) = some uid ↔ v = 0 :=
      uid_of_word_append_self hv
    rw [mem_uids, hlist, List.mem_append, List.mem_singleton, not_or] at hnew
    constructor
    · intro heq
      have hadded : ∀ w, w ∈ uid_list (content ++ fprintf_uint uid) ↔ w = uid ∨ w ∈ uid_list content := by
        intro w
        rw [← mem_uids, heq, Finset.mem_insert, mem_uids]
      simp only [uid_list_add, hlist, List.mem_append, Option.mem_toList, List.mem_singleton] at hadded
      have hzero : v = 0 := hself.mp (((hadded uid).mpr (Or.inl rfl)).resolve_left hnew.1)
      refine Or.inr ⟨by rw [hv, hzero], ?_⟩
      rcases (hadded v).mpr (Or.inr (Or.inr rfl)) with hbefore | hjoined
      · rwa [hzero, ← mem_uids] at hbefore
      · rw [hself.mpr hzero, Option.some.injEq] at hjoined
        exact absurd hjoined hnew.2
    · rintro (hnil | ⟨hzero, hbefore⟩)
      · exact absurd hnil hlast
      · obtain rfl : v = 0 := Option.some.inj (hv.symm.trans hzero)
        ext w
        simp only [mem_uids, uid_list_add, hlist, hself.mpr rfl, Finset.mem_insert, List.mem_append,
          Option.toList_some, List.mem_singleton]
        rw [mem_uids] at hbefore
        grind

theorem wellFormed_add (hwf : WellFormed content) (happend : Appendable content) :
    WellFormed (content ++ fprintf_uint uid) := by
  intro word hword
  rw [words_add, List.mem_append, List.mem_singleton] at hword
  rcases hword with hbefore | rfl
  · exact hwf word (by rw [words_eq_last_word]; exact List.mem_append_left _ hbefore)
  · rcases happend with hnil | ⟨hzero, -⟩
    · rw [hnil, List.nil_append, uid_of_word_digits]
      rfl
    · rw [(uid_of_word_append_self hzero).mpr rfl]
      rfl

end Effects

section Runs

variable {disk disk' : Disk} {action : PermissionsCall × Int}

def Disk.current (disk : Disk) : List Char := (disk CURR_PERMISSIONS_FILE).getD []

/-- The uids permitted. -/
def Disk.permitted (disk : Disk) : Finset UInt32 := uids disk.current

/-- What a call is for, on the set of the uids permitted. -/
def intended (boot : Finset UInt32) : PermissionsCall → Finset UInt32 → Finset UInt32
  | .clear, _ => ∅
  | .restore, _ => boot
  | .check _, permitted => permitted
  | .add_uid uid, permitted => insert uid permitted
  | .del_uid uid, permitted => permitted.erase uid

/-- The calls that return 0: all but the check of a uid that is not permitted. -/
def Succeeds (permitted : Finset UInt32) : PermissionsCall → Prop
  | .check uid => uid ∈ permitted
  | _ => True

/-- A call does to the permissions file what it is for. -/
def Refines (disk : Disk) (action : PermissionsCall × Int) (disk' : Disk) : Prop :=
  disk'.permitted = intended (uids ((disk BOOT_PERMISSIONS_FILE).getD [])) action.1 disk.permitted ∧
    (action.2 = 0 ↔ Succeeds disk.permitted action.1)

/-- A uid that is not yet permitted is only added where the file can be appended to. -/
def AddsApart (disk : Disk) (action : PermissionsCall × Int) (_ : Disk) : Prop :=
  match action.1 with
  | .add_uid uid => uid ∈ disk.permitted ∨ Appendable disk.current
  | _ => True

instance (disk : Disk) (action : PermissionsCall × Int) (disk' : Disk) :
    Decidable (AddsApart disk action disk') :=
  match action with
  | (.add_uid _, _) => inferInstanceAs (Decidable (_ ∨ _))
  | (.clear, _) | (.restore, _) | (.check _, _) | (.del_uid _, _) => .isTrue trivial

/-- The lists at boot time and now are lists of uids. -/
structure WellFormedDisk (disk : Disk) : Prop where
  boot : ∃ content, disk BOOT_PERMISSIONS_FILE = some content ∧ WellFormed content
  current : WellFormed disk.current

@[simp] theorem current_write (disk : Disk) (content : List Char) :
    (disk.write CURR_PERMISSIONS_FILE content).current = content := by
  simp [Disk.current, Disk.write]

theorem WellFormedDisk.write {content : List Char} (h : WellFormedDisk disk) (hcontent : WellFormed content) :
    WellFormedDisk (disk.write CURR_PERMISSIONS_FILE content) where
  boot := by simpa [Disk.write] using h.boot
  current := by rwa [current_write]

/-- A search finds the uids permitted. -/
theorem file_search_uint_zero_iff (h : WellFormed disk.current) (uid : UInt32) :
    file_search_uint CURR_PERMISSIONS_FILE uid disk = 0 ↔ uid ∈ disk.permitted := by
  unfold Disk.permitted Disk.current file_search_uint at *
  cases hcurr : disk CURR_PERMISSIONS_FILE with
  | none => simp [uids, uid_list]
  | some content =>
    rw [hcurr, Option.getD_some] at h
    simp only [search_loop_eq, read_uints_of_wellFormed h (Nat.le_refl _), Option.getD_some, mem_uids]
    split <;> simp [*]

theorem restore_permissions_file_eq {content : List Char} (hboot : disk BOOT_PERMISSIONS_FILE = some content)
    (h : WellFormed content) :
    restore_permissions_file disk = (0, disk.write CURR_PERMISSIONS_FILE content) := by
  simp only [restore_permissions_file, file_copy, hboot, copy_loop_eq h.nul_not_mem (Nat.le_refl _)]

/-- What a deletion leaves, besides the temporary file. -/
theorem del_uid_permissions_file_cases (h : WellFormed disk.current) (uid : UInt32) :
    (uid ∉ disk.permitted ∧ del_uid_permissions_file uid disk = (0, disk)) ∨
    ∃ disk', del_uid_permissions_file uid disk = (0, disk') ∧
      disk' BOOT_PERMISSIONS_FILE = disk BOOT_PERMISSIONS_FILE ∧
      disk'.current = ((uid_list disk.current).filter (uid ≠ ·)).flatMap fprintf_uint := by
  have hfound := file_search_uint_zero_iff h uid
  unfold del_uid_permissions_file
  by_cases hsearch : file_search_uint CURR_PERMISSIONS_FILE uid disk = 0
  · rw [if_neg (not_not_intro hsearch)]
    cases hcurr : disk CURR_PERMISSIONS_FILE with
    | none => simp [file_search_uint, hcurr] at hsearch
    | some content =>
      have hcontent : disk.current = content := by rw [Disk.current, hcurr, Option.getD_some]
      rw [hcontent] at h ⊢
      refine Or.inr ⟨_, rfl, rfl, ?_⟩
      simp [Disk.current, Disk.write, delete_loop_eq, read_uints_of_wellFormed h (Nat.le_refl _)]
  · rw [if_pos hsearch]
    exact Or.inl ⟨mt hfound.mpr hsearch, rfl⟩

theorem PermissionsStep.refines_iff (h : PermissionsStep disk action disk') (hwf : WellFormedDisk disk) :
    Refines disk action disk' ↔ AddsApart disk action disk' := by
  obtain ⟨call, retval⟩ := action
  unfold Refines AddsApart
  cases call with
  | clear =>
    obtain ⟨rfl, rfl⟩ := Prod.mk.inj h
    simp [intended, Succeeds, Disk.permitted, uids, uid_list]
  | restore =>
    obtain ⟨content, hboot, hcontent⟩ := hwf.boot
    obtain ⟨rfl, rfl⟩ := Prod.mk.inj ((restore_permissions_file_eq hboot hcontent).symm.trans h)
    simp [intended, Succeeds, Disk.permitted, hboot]
  | check uid =>
    obtain ⟨rfl, rfl⟩ := Prod.mk.inj h
    exact iff_of_true ⟨rfl, file_search_uint_zero_iff hwf.current uid⟩ trivial
  | add_uid uid =>
    have hfound := file_search_uint_zero_iff hwf.current uid
    simp only [PermissionsStep, perform, add_uid_permissions_file] at h
    split at h
    · next hsearch =>
      obtain ⟨rfl, rfl⟩ := Prod.mk.inj h
      have hlisted := hfound.mp hsearch
      exact iff_of_true ⟨(Finset.insert_eq_of_mem hlisted).symm, by simp [Succeeds]⟩ (Or.inl hlisted)
    · next hsearch =>
      obtain ⟨rfl, rfl⟩ := Prod.mk.inj h
      have hnew := mt hfound.mpr hsearch
      have hadded : (disk.write CURR_PERMISSIONS_FILE (disk.current ++ fprintf_uint uid)).permitted =
          insert uid disk.permitted ↔ Appendable disk.current := by
        rw [Disk.permitted, current_write]
        exact uids_add_iff hwf.current hnew
      exact (and_iff_left (by simp [Succeeds])).trans (hadded.trans (or_iff_right hnew).symm)
  | del_uid uid =>
    refine iff_of_true ?_ trivial
    obtain ⟨hnot, heq⟩ | ⟨left, heq, -, hleft⟩ := del_uid_permissions_file_cases hwf.current uid
    · obtain ⟨rfl, rfl⟩ := Prod.mk.inj (heq.symm.trans h)
      exact ⟨(Finset.erase_eq_of_notMem hnot).symm, by simp [Succeeds]⟩
    · obtain ⟨rfl, rfl⟩ := Prod.mk.inj (heq.symm.trans h)
      refine ⟨?_, by simp [Succeeds]⟩
      ext w
      simp only [Disk.permitted, hleft, intended, mem_uids, uid_list_printed, Finset.mem_erase, List.mem_filter,
        decide_eq_true_eq]
      exact and_comm.trans (and_congr_left' ne_comm)

theorem PermissionsStep.wellFormed (h : PermissionsStep disk action disk') (hwf : WellFormedDisk disk)
    (hapart : AddsApart disk action disk') : WellFormedDisk disk' := by
  obtain ⟨call, retval⟩ := action
  cases call with
  | clear =>
    obtain ⟨rfl, rfl⟩ := Prod.mk.inj h
    exact hwf.write (by simp [WellFormed])
  | restore =>
    obtain ⟨content, hboot, hcontent⟩ := hwf.boot
    obtain ⟨rfl, rfl⟩ := Prod.mk.inj ((restore_permissions_file_eq hboot hcontent).symm.trans h)
    exact hwf.write hcontent
  | check uid =>
    obtain ⟨rfl, rfl⟩ := Prod.mk.inj h
    exact hwf
  | add_uid uid =>
    simp only [PermissionsStep, perform, add_uid_permissions_file] at h
    split at h
    · obtain ⟨rfl, rfl⟩ := Prod.mk.inj h
      exact hwf
    · next hsearch =>
      obtain ⟨rfl, rfl⟩ := Prod.mk.inj h
      have hnew := mt (file_search_uint_zero_iff hwf.current uid).mpr hsearch
      exact hwf.write (wellFormed_add hwf.current (hapart.resolve_left hnew))
  | del_uid uid =>
    obtain ⟨-, heq⟩ | ⟨left, heq, hboot, hleft⟩ := del_uid_permissions_file_cases hwf.current uid
    · obtain ⟨rfl, rfl⟩ := Prod.mk.inj (heq.symm.trans h)
      exact hwf
    · obtain ⟨rfl, rfl⟩ := Prod.mk.inj (heq.symm.trans h)
      exact ⟨hboot ▸ hwf.boot, hleft ▸ wellFormed_printed _⟩

/-- From any lists of uids on the disk, every call of a run does to the set of uids
permitted what it is for, if and only if no new uid is added to a file that ends within a word. -/
theorem uid_set_refined_iff (disk : Disk) (run : List ((PermissionsCall × Int) × Disk))
    (hrun : EachStep PermissionsStep disk run) (hwf : WellFormedDisk disk) :
    EachStep Refines disk run ↔ EachStep AddsApart disk run :=
  hrun.iff_of_invariant hwf (fun _ _ _ hstep hwf hapart => hstep.wellFormed hwf hapart)
    fun _ _ _ hstep hwf => hstep.refines_iff hwf

/-- Root is permitted at boot time; the current file is as given. -/
def disk_with (current : List Char) : Disk
  | BOOT_PERMISSIONS_FILE => some ['0', '\n']
  | CURR_PERMISSIONS_FILE => some current
  | TEMP_PERMISSIONS_FILE => none

/-- A file without a final newline, rewritten by a deletion before a uid is added. -/
theorem uid_set_refined_iff_delete_add :
    EachStep Refines (disk_with ['1', '0', ' ', '7', '\n', '1', '0'])
      (permissions_run [.del_uid 10, .add_uid 5, .check 5, .clear, .restore]
        (disk_with ['1', '0', ' ', '7', '\n', '1', '0'])) :=
  (uid_set_refined_iff _ _ (permissions_run_steps _ _) ⟨⟨_, rfl, by decide⟩, by decide⟩).mpr (by decide)

/-- Behind a list without a final newline, 5 is added to 1000 as 10005. -/
theorem uid_set_not_refined :
    ¬ ∀ disk run, EachStep PermissionsStep disk run → WellFormedDisk disk → EachStep Refines disk run := by
  intro hclaim
  have h := hclaim (disk_with ['1', '0', '0', '0']) _ (permissions_run_steps [.add_uid 5] _)
    ⟨⟨_, rfl, by decide⟩, by decide⟩
  have hset : uids ['1', '0', '0', '0', '5', '\n'] = insert 5 (uids ['1', '0', '0', '0']) := h.1.1
  exact absurd hset (by decide)

end Runs

end pwrapi.permissions
