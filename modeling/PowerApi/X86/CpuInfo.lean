import PowerApi.X86.CpuReading

open Scanf (takeWhile_append_of_stop)
open pwrapi.permissions (strtoul fscanf_uint)

namespace pwrapi.x86

/-- The files that `x86_read_info` reads. One that cannot be opened has no content. -/
structure InfoFiles where
  kernel_max : Option (List Char)
  possible : Option (List Char)
  present : Option (List Char)
  online : Option (List Char)

/-- `x86_read_line`: the first line of a file, without the character that ends it. -/
def x86_read_line (file : Option (List Char)) : Option (List Char) :=
  match file with
  | none => none
  | some [] => none
  | some content => some (content.takeWhile (· ≠ '\n'))

/-- `x86_read_uint32`. -/
def x86_read_uint32 (file : Option (List Char)) : Option UInt32 := do
  let buf ← x86_read_line file
  (fscanf_uint buf).map (·.1)

/-- `info_t`. A mask that has not been read is a null pointer. -/
structure Info where
  cpus_max : UInt32 := 0
  cpu_mask_possible : Option Bitmask := none
  cpu_mask_present : Option Bitmask := none
  cpu_mask_online : Option Bitmask := none
  deriving DecidableEq

/-- What `x86_read_info` does for each of the lists: whether the file is read, and the mask. `none` is a
run that does not come back, for a list whose ranges do not end or for a null pointer that is given to
`x86_list_parse_bitmask`. -/
def read_mask (cpus_max : UInt32) (file : Option (List Char)) : Option (Option Bitmask) :=
  match x86_read_line file with
  | none => some none
  | some cpu_list =>
    match new_bitmask cpus_max.toUInt64 with
    | none => none
    | some mask => (x86_list_parse_bitmask cpu_list mask).map fun (_, mask) => some mask

/-- `x86_read_info`. -/
def x86_read_info (files : InfoFiles) : Option (Int × Info) :=
  match x86_read_uint32 files.kernel_max with
  | none => some (-1, {})
  | some cpus_max => do
    let info : Info := { cpus_max }
    let cpu_mask_possible ← read_mask cpus_max files.possible
    let info := { info with cpu_mask_possible }
    if cpu_mask_possible = none then return (-1, info)
    let cpu_mask_present ← read_mask cpus_max files.present
    let info := { info with cpu_mask_present }
    if cpu_mask_present = none then return (-1, info)
    let cpu_mask_online ← read_mask cpus_max files.online
    let info := { info with cpu_mask_online }
    if cpu_mask_online = none then return (-1, info)
    return (0, info)

/-- The first line of a file. -/
def FirstLine (file : Option (List Char)) (line : List Char) : Prop :=
  ∃ rest, file = some (line ++ rest) ∧ (rest = [] ∨ ∃ more, rest = '\n' :: more)

/-- A file with a list of CPUs up to the highest one that the kernel supports. -/
structure ListsCpus (file : Option (List Char)) (kernel_max : ℕ) (spans : List Span) : Prop where
  nonempty : spans ≠ []
  wellFormed : ∀ span ∈ spans, span.WellFormed
  le_max : ∀ span ∈ spans, span.high ≤ kernel_max
  line : FirstLine file (print_list spans)

/-- The mask holds these CPUs and no others. -/
def Holds (mask : Option Bitmask) (cpus : Set ℕ) : Prop :=
  ∃ bits, mask = some bits ∧ ∀ n, bits.test n = true ↔ n ∈ cpus

/-- `x86_read_info` succeeds, with the masks of the three lists. -/
def ReadsExactly (files : InfoFiles) (possible present online : List Span) : Prop :=
  ∃ info, x86_read_info files = some (0, info) ∧ Holds info.cpu_mask_possible (list_cpus possible) ∧
    Holds info.cpu_mask_present (list_cpus present) ∧ Holds info.cpu_mask_online (list_cpus online)

section Files

variable {file : Option (List Char)} {line : List Char} {num : Num} {spans : List Span} {cpus_max : UInt32}
  {kernel_max : ℕ} {mask : Option Bitmask}

theorem x86_read_line_eq (h : FirstLine file line) (hne : line ≠ []) (hline : '\n' ∉ line) :
    x86_read_line file = some line := by
  obtain ⟨rest, rfl, hrest⟩ := h
  obtain ⟨c, tail, rfl⟩ := List.exists_cons_of_ne_nil hne
  have htake : (c :: tail ++ rest).takeWhile (· ≠ '\n') = c :: tail := by
    rw [takeWhile_append_of_stop, List.takeWhile_eq_self_iff]
    · intro d hd
      refine decide_eq_true ?_
      rintro rfl
      exact hline hd
    · intro d hd
      obtain rfl | ⟨more, rfl⟩ := hrest
      · cases hd
      · cases hd
        rfl
  exact congrArg some htake

theorem x86_read_uint32_eq (h : FirstLine file num.chars) :
    x86_read_uint32 file = some (strtoul false num.chars).toUInt32 := by
  have hread := num.fscanf_uint (t := []) (by simp)
  rw [List.append_nil] at hread
  rw [x86_read_uint32, x86_read_line_eq h num.nonempty (num.not_mem (by decide)), Option.bind_eq_bind,
    Option.bind_some, hread, Option.map_some]

theorem ListsCpus.read_line (h : ListsCpus file kernel_max spans) :
    x86_read_line file = some (print_list spans) := by
  refine x86_read_line_eq h.line ?_ ?_
  · intro hnil
    have hlength := length_le_print_list spans
    rw [hnil, List.length_nil, Nat.le_zero, List.length_eq_zero_iff] at hlength
    exact h.nonempty hlength
  · intro hmem
    exact absurd (mem_print_list hmem) (by decide)

/-- There is a CPU in the list. -/
theorem ListsCpus.mem_cpus (h : ListsCpus file kernel_max spans) : ∃ n, n ∈ list_cpus spans := by
  obtain ⟨span, rest, rfl⟩ := List.exists_cons_of_ne_nil h.nonempty
  exact ⟨span.low, span, List.mem_cons_self, 0, by omega, (h.wellFormed span List.mem_cons_self).low_le⟩

/-- Such a file is read into a mask with its CPUs exactly when its list is read as it is meant. -/
theorem ListsCpus.holds_iff (h : ListsCpus file kernel_max spans) (cpus_max : UInt32) :
    (∃ mask, read_mask cpus_max file = some mask ∧ Holds mask (list_cpus spans)) ↔
      Readable cpus_max.toNat spans := by
  rw [read_mask, h.read_line]
  dsimp only
  cases hnew : new_bitmask cpus_max.toUInt64 with
  | none =>
    have hzero : cpus_max.toNat = 0 := by
      rw [new_bitmask] at hnew
      split_ifs at hnew with hsmall
      rw [UInt64.lt_iff_toNat_lt, UInt32.toNat_toUInt64, UInt64.toNat_one] at hsmall
      omega
    refine iff_of_false (by simp) fun hreadable => ?_
    obtain ⟨n, hn⟩ := h.mem_cpus
    have hlt := hreadable.lt hn
    omega
  | some fresh =>
    have hused : fresh.used.toNat = cpus_max.toNat := by
      rw [new_bitmask] at hnew
      split_ifs at hnew
      cases hnew
      exact UInt32.toNat_toUInt64 cpus_max
    obtain ⟨hnone, hsome⟩ := x86_list_parse_bitmask_read h.nonempty fresh
    rw [hused] at hnone hsome
    by_cases hreturns : Returns cpus_max.toNat spans
    · obtain ⟨retval, mask, hrun, htest⟩ := hsome hreturns
      simp only [hrun, Option.map_some, Option.some.injEq, exists_eq_left']
      constructor
      · rintro ⟨bits, hbits, hexact⟩
        cases hbits
        exact ⟨hreturns, Set.ext fun n => (htest n).symm.trans (hexact n)⟩
      · intro hreadable
        exact ⟨mask, rfl, fun n => (htest n).trans (by rw [hreadable.cpus])⟩
    · refine iff_of_false (by simp [hnone hreturns]) fun hreadable => hreturns hreadable.returns

/-- Where all numbers fit, a list is read as it is meant exactly if it is without the highest CPU that
the kernel supports. -/
theorem ListsCpus.readable_iff (h : ListsCpus file num.value spans) (hlt : num.value < 2 ^ 32)
    (hfits : ∀ span ∈ spans, span.Fits) : Readable num.word spans ↔ num.value ∉ list_cpus spans := by
  rw [readable_iff_of_fits fun span hspan => ⟨h.wellFormed span hspan, hfits span hspan⟩, Num.word_eq hlt]
  constructor
  · exact fun hall hmem => Nat.lt_irrefl _ (hall num.value hmem)
  · rintro hmiss n ⟨span, hspan, i, heq, hle⟩
    have hhigh := h.le_max span hspan
    have hne : n ≠ num.value := by
      rintro rfl
      exact hmiss ⟨span, hspan, i, heq, hle⟩
    omega

end Files

section Info

variable {files : InfoFiles} {info : Info} {cpus_max : UInt32}

/-- What a successful `x86_read_info` has read. -/
theorem x86_read_info_success (hmax : x86_read_uint32 files.kernel_max = some cpus_max)
    (h : x86_read_info files = some (0, info)) :
    read_mask cpus_max files.possible = some info.cpu_mask_possible ∧
      read_mask cpus_max files.present = some info.cpu_mask_present ∧
      read_mask cpus_max files.online = some info.cpu_mask_online := by
  rw [x86_read_info, hmax] at h
  simp only [Option.bind_eq_bind, Option.bind_eq_some_iff, Option.pure_def] at h
  obtain ⟨possible, hpossible, h⟩ := h
  split_ifs at h
  · cases h
  rw [Option.bind_eq_some_iff] at h
  obtain ⟨present, hpresent, h⟩ := h
  split_ifs at h
  · cases h
  rw [Option.bind_eq_some_iff] at h
  obtain ⟨online, honline, h⟩ := h
  split_ifs at h
  · cases h
  cases h
  exact ⟨hpossible, hpresent, honline⟩

/-- The masks hold exactly the CPUs of the lists when these are read as they are meant, in a mask of as many
bits as the highest CPU that the kernel supports is read as. -/
theorem x86_read_info_exact_iff (files : InfoFiles) (kernel_max : Num) (possible present online : List Span)
    (hmax : FirstLine files.kernel_max kernel_max.chars)
    (hpossible : ListsCpus files.possible kernel_max.value possible)
    (hpresent : ListsCpus files.present kernel_max.value present)
    (honline : ListsCpus files.online kernel_max.value online) :
    ReadsExactly files possible present online ↔
      ∀ spans ∈ [possible, present, online], Readable kernel_max.word spans := by
  have hread := x86_read_uint32_eq hmax
  have hword := kernel_max.toNat_strtoul
  generalize (strtoul false kernel_max.chars).toUInt32 = cpus_max at hread hword
  simp only [List.forall_mem_cons, List.not_mem_nil, false_implies, implies_true, and_true]
  rw [← hword, ← hpossible.holds_iff, ← hpresent.holds_iff, ← honline.holds_iff]
  constructor
  · rintro ⟨info, hrun, hholds1, hholds2, hholds3⟩
    obtain ⟨h1, h2, h3⟩ := x86_read_info_success hread hrun
    exact ⟨⟨_, h1, hholds1⟩, ⟨_, h2, hholds2⟩, ⟨_, h3, hholds3⟩⟩
  · rintro ⟨⟨mask1, h1, hholds1⟩, ⟨mask2, h2, hholds2⟩, ⟨mask3, h3, hholds3⟩⟩
    refine ⟨⟨cpus_max, mask1, mask2, mask3⟩, ?_, hholds1, hholds2, hholds3⟩
    obtain ⟨bits1, rfl, -⟩ := hholds1
    obtain ⟨bits2, rfl, -⟩ := hholds2
    obtain ⟨bits3, rfl, -⟩ := hholds3
    rw [x86_read_info, hread]
    simp only [h1, h2, h3, Option.bind_eq_bind, Option.bind_some, reduceCtorEq, if_false, Option.pure_def]

/-- The files of a machine whose CPUs are all possible, present and online. -/
def info_files (kernel_max : ℕ) (spans : List Span) : InfoFiles where
  kernel_max := some ((Num.print kernel_max).chars ++ ['\n'])
  possible := some (print_list spans ++ ['\n'])
  present := some (print_list spans ++ ['\n'])
  online := some (print_list spans ++ ['\n'])

/-- The list "0-7". -/
def first_eight : List Span := [.range (.print 0) (.print 7)]

theorem firstLine_append (line : List Char) : FirstLine (some (line ++ ['\n'])) line :=
  ⟨['\n'], rfl, .inr ⟨[], rfl⟩⟩

theorem first_eight_lists {kernel_max : ℕ} (h : 7 ≤ kernel_max) :
    ListsCpus (some (print_list first_eight ++ ['\n'])) kernel_max first_eight := by
  refine ⟨List.cons_ne_nil _ _, ?_, ?_, firstLine_append _⟩
  · exact List.forall_mem_singleton.mpr ⟨by simp [Span.low, Span.high], Nat.le_refl 1⟩
  · exact List.forall_mem_singleton.mpr (by simpa [Span.high] using h)

theorem x86_read_info_exact_iff_eight :
    ReadsExactly (info_files 8 first_eight) first_eight first_eight first_eight := by
  have hlist := first_eight_lists (show 7 ≤ (Num.print 8).value by simp)
  have hmiss : (Num.print 8).value ∉ list_cpus first_eight := by
    rintro ⟨span, hspan, i, -, hle⟩
    obtain rfl := List.mem_singleton.mp hspan
    simp [Span.high] at hle
  have hfits : ∀ span ∈ first_eight, span.Fits := fun span hspan =>
    Span.fits_of_lt (hlist.wellFormed span hspan) (by
      obtain rfl := List.mem_singleton.mp hspan
      simp [Span.high]) (by
      obtain rfl := List.mem_singleton.mp hspan
      simp [Span.step])
  have hreadable : Readable (Num.print 8).word first_eight := (hlist.readable_iff (by simp) hfits).mpr hmiss
  refine (x86_read_info_exact_iff (info_files 8 first_eight) (.print 8) first_eight first_eight first_eight
    (firstLine_append _) hlist hlist hlist).mpr ?_
  simpa only [List.forall_mem_cons, List.not_mem_nil, false_implies, implies_true, and_true, and_self] using hreadable

/-- Where CPU 7 is the highest one and the lists are "0-7", the masks hold 0 to 6. -/
theorem x86_read_info_without_last :
    FirstLine (info_files 7 first_eight).kernel_max (Num.print 7).chars ∧
      ListsCpus (info_files 7 first_eight).possible (Num.print 7).value first_eight ∧
      ListsCpus (info_files 7 first_eight).present (Num.print 7).value first_eight ∧
      ListsCpus (info_files 7 first_eight).online (Num.print 7).value first_eight ∧
      x86_read_info (info_files 7 first_eight) =
        some (0, ⟨7, some ⟨7, [127], rfl⟩, some ⟨7, [127], rfl⟩, some ⟨7, [127], rfl⟩⟩) ∧
      ¬ ReadsExactly (info_files 7 first_eight) first_eight first_eight first_eight := by
  have hlist := first_eight_lists (show 7 ≤ (Num.print 7).value by simp)
  have hrun : x86_read_info (info_files 7 first_eight) =
      some (0, ⟨7, some ⟨7, [127], rfl⟩, some ⟨7, [127], rfl⟩, some ⟨7, [127], rfl⟩⟩) := by
    decide +kernel
  refine ⟨firstLine_append _, hlist, hlist, hlist, hrun, ?_⟩
  rintro ⟨info, hinfo, ⟨bits, hbits, htest⟩, -, -⟩
  rw [hrun] at hinfo
  cases hinfo
  cases hbits
  have hmem : 7 ∈ list_cpus first_eight :=
    ⟨_, List.mem_singleton_self _, 7, by simp [Span.low, Span.step], by simp [Span.high]⟩
  exact absurd ((htest 7).mpr hmem) (by decide)

end Info

end pwrapi.x86
