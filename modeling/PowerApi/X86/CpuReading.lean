import PowerApi.X86.CpuGrammar

open pwrapi.permissions (strtoul)

namespace pwrapi.x86

/-- A number as `%u` reads it: the lower 32 bits of the number, or of the largest one of 64 bits. -/
def Num.word (num : Num) : ℕ := min num.value (2 ^ 64 - 1) % 2 ^ 32

namespace Span

/-- The ends and the step of a range as they are read. -/
def read_low : Span → ℕ
  | cpu num => num.word
  | range low _ => low.word
  | stepped low _ _ => low.word

def read_high : Span → ℕ
  | cpu num => num.word
  | range _ high => high.word
  | stepped _ high _ => high.word

def read_step : Span → ℕ
  | cpu _ => 1
  | range _ _ => 1
  | stepped _ _ inc => inc.word

/-- The index in the given round, which is one of 32 bits. -/
def index (span : Span) (i : ℕ) : ℕ := (span.read_low + i * span.read_step) % 2 ^ 32

/-- The index of that round lies in the range and in a mask of the given size. -/
def Inside (size : ℕ) (span : Span) (i : ℕ) : Prop := span.index i ≤ span.read_high ∧ span.index i < size

/-- The index takes the value before it leaves the range or the mask. -/
def Reaches (size : ℕ) (span : Span) (n : ℕ) : Prop :=
  span.read_step ≠ 0 ∧ ∃ i, n = span.index i ∧ ∀ j ≤ i, span.Inside size j

/-- The index leaves the range at its end. -/
def Passes (size : ℕ) (span : Span) : Prop :=
  span.read_step ≠ 0 ∧ ∃ i, 0 < i ∧ (∀ j < i, span.Inside size j) ∧ span.read_high < span.index i

/-- The index goes round in the range forever. -/
def Endless (size : ℕ) (span : Span) : Prop := span.read_step ≠ 0 ∧ ∀ i, span.Inside size i

end Span

/-- The CPUs of the ranges as they are read, up to the first one that is not left at its end. -/
def read_cpus (size : ℕ) : List Span → Set ℕ
  | [] => ∅
  | span :: rest => {n | span.Reaches size n ∨ span.Passes size ∧ n ∈ read_cpus size rest}

/-- No range up to that one is endless. -/
def Returns (size : ℕ) : List Span → Prop
  | [] => True
  | span :: rest => ¬ span.Endless size ∧ (span.Passes size → Returns size rest)

/-- A list that stands for the same CPUs as it is read and as it is meant. -/
structure Readable (size : ℕ) (spans : List Span) : Prop where
  returns : Returns size spans
  cpus : read_cpus size spans = list_cpus spans

section Words

variable {num : Num} {span : Span} {i : ℕ}

theorem Num.toNat_strtoul (num : Num) : (strtoul false num.chars).toUInt32.toNat = num.word := by
  have hmod : (strtoul false num.chars).toUInt32.toNat = (strtoul false num.chars).toNat % 2 ^ 32 := rfl
  have hvalue : Nat.ofDigitChars 10 num.chars 0 = num.value := rfl
  rw [hmod, strtoul, Num.word, hvalue]
  simp only [Bool.false_eq_true, if_false]
  split_ifs with hlarge
  · rw [min_eq_right (by omega)]
    rfl
  · rw [min_eq_left (by omega), UInt64.toNat_ofNat', Nat.mod_eq_of_lt (Nat.not_le.mp hlarge)]

theorem Num.word_eq (h : num.value < 2 ^ 32) : num.word = num.value := by
  rw [Num.word, min_eq_left (by omega), Nat.mod_eq_of_lt h]

theorem Span.toNat_read (span : Span) : span.read.beg.toNat = span.read_low ∧
    span.read.last.toNat = span.read_high ∧ span.read.inc.toNat = span.read_step := by
  cases span with
  | cpu num => exact ⟨num.toNat_strtoul, num.toNat_strtoul, rfl⟩
  | range low high => exact ⟨low.toNat_strtoul, high.toNat_strtoul, rfl⟩
  | stepped low high inc => exact ⟨low.toNat_strtoul, high.toNat_strtoul, inc.toNat_strtoul⟩

theorem Span.read_inc_eq_zero (span : Span) : span.read.inc = 0 ↔ span.read_step = 0 := by
  rw [← span.toNat_read.2.2, ← UInt32.toNat_inj, UInt32.toNat_zero]

theorem Span.index_eq (span : Span) (i : ℕ) :
    (visit i span.read.beg span.read.inc).toNat = span.index i := by
  obtain ⟨hlow, -, hstep⟩ := span.toNat_read
  rw [toNat_visit, hlow, hstep, Span.index]

/-- The index takes the same values again after as many rounds as there are of them. -/
theorem Span.index_mod (span : Span) (i : ℕ) : span.index (i % 2 ^ 32) = span.index i := by
  rw [Span.index, Span.index, Nat.add_mod, Nat.mod_mul_mod, ← Nat.add_mod]

/-- The loop goes on for as long as the index is inside. -/
theorem Span.walks_iff (span : Span) (used : UInt64) (k : ℕ) :
    Walks used span.read k ↔ ∀ i < k, span.Inside used.toNat i := by
  refine forall₂_congr fun i _ => ?_
  rw [UInt32.le_iff_toNat_le, span.index_eq, span.toNat_read.2.1, Span.Inside]

theorem Span.passed_iff (span : Span) (k : ℕ) :
    span.read.last < visit k span.read.beg span.read.inc ↔ span.read_high < span.index k := by
  rw [UInt32.lt_iff_toNat_lt, span.index_eq, span.toNat_read.2.1]

end Words

section Ranges

variable {span : Span} {size k n : ℕ}

/-- What is reached where the index is inside for `k` rounds and no more. -/
theorem Span.reaches_iff (hstep : span.read_step ≠ 0) (hinside : ∀ i < k, span.Inside size i)
    (houtside : ¬ span.Inside size k) : span.Reaches size n ↔ ∃ i < k, n = span.index i := by
  constructor
  · rintro ⟨-, i, rfl, hall⟩
    refine ⟨i, ?_, rfl⟩
    by_contra hle
    exact houtside (hall k (Nat.not_lt.mp hle))
  · rintro ⟨i, hi, rfl⟩
    exact ⟨hstep, i, rfl, fun j hj => hinside j (Nat.lt_of_le_of_lt hj hi)⟩

theorem Span.not_endless (houtside : ¬ span.Inside size k) : ¬ span.Endless size :=
  fun h => houtside (h.2 k)

/-- A range is not left at its end where the index is in the range when it leaves the mask. -/
theorem Span.not_passes (hinside : ∀ i < k, span.Inside size i) (hle : span.index k ≤ span.read_high)
    (hsize : size ≤ span.index k) : ¬ span.Passes size := by
  rintro ⟨-, i, -, hbefore, hpast⟩
  obtain hlt | rfl | hgt := Nat.lt_trichotomy i k
  · exact Nat.not_lt.mpr (hinside i hlt).1 hpast
  · exact Nat.not_lt.mpr hle hpast
  · exact Nat.not_lt.mpr hsize (hbefore k hgt).2

/-- A range that starts past its end, or whose step is read as 0, is not read at all. -/
theorem Span.not_read (h : span.read_step = 0 ∨ span.read_high < span.index 0) :
    (∀ n, ¬ span.Reaches size n) ∧ ¬ span.Passes size ∧ ¬ span.Endless size := by
  obtain hzero | hpast := h
  · exact ⟨fun n hreaches => hreaches.1 hzero, fun hpasses => hpasses.1 hzero, fun hendless => hendless.1 hzero⟩
  · have houtside : ¬ span.Inside size 0 := fun hinside => Nat.not_lt.mpr hinside.1 hpast
    refine ⟨?_, ?_, Span.not_endless houtside⟩
    · rintro n ⟨-, i, -, hall⟩
      exact houtside (hall 0 (Nat.zero_le i))
    · rintro ⟨-, i, hpos, hall, -⟩
      exact houtside (hall 0 hpos)

/-- The loop over a range: it gets to the end of the range, or to a CPU behind the mask, or nowhere, and
sets the bits that it reaches. -/
theorem Span.set_range_cases (span : Span) (mask : Bitmask) (hstep : span.read_step ≠ 0)
    (hle : span.read.beg ≤ span.read.last) :
    (span.Passes mask.used.toNat ∧ ¬ span.Endless mask.used.toNat ∧ ∃ mask' : Bitmask, mask'.used = mask.used ∧
      set_range span.read.last span.read.inc (2 ^ 32) span.read.beg mask = some (true, mask') ∧
      ∀ n, mask'.test n = true ↔ mask.test n = true ∨ span.Reaches mask.used.toNat n) ∨
    (¬ span.Passes mask.used.toNat ∧ ¬ span.Endless mask.used.toNat ∧ ∃ mask' : Bitmask,
      set_range span.read.last span.read.inc (2 ^ 32) span.read.beg mask = some (false, mask') ∧
      ∀ n, mask'.test n = true ↔ mask.test n = true ∨ span.Reaches mask.used.toNat n) ∨
    (span.Endless mask.used.toNat ∧
      set_range span.read.last span.read.inc (2 ^ 32) span.read.beg mask = none) := by
  obtain ⟨k, hwalks, hpast⟩ | ⟨k, hwalks, hreached, hused⟩ | hwalks := walks_cases mask.used span.read
  · obtain ⟨mask', hsame, hrun, htest⟩ := set_range_of_walks hwalks hpast
    rw [span.walks_iff] at hwalks
    rw [span.passed_iff] at hpast
    have houtside : ¬ span.Inside mask.used.toNat k := fun h => Nat.not_lt.mpr h.1 hpast
    have hpos : 0 < k := by
      refine Nat.pos_of_ne_zero ?_
      rintro rfl
      rw [← span.passed_iff] at hpast
      exact UInt32.not_lt.mpr hle hpast
    refine .inl ⟨⟨hstep, k, hpos, hwalks, hpast⟩, Span.not_endless houtside, mask', hsame, hrun, fun n => ?_⟩
    rw [htest, Span.reaches_iff hstep hwalks houtside]
    simp only [span.index_eq]
  · obtain ⟨mask', -, hrun, htest⟩ := set_range_of_overruns hwalks hreached hused
    rw [span.walks_iff] at hwalks
    rw [UInt32.le_iff_toNat_le, span.index_eq, span.toNat_read.2.1] at hreached
    rw [span.index_eq] at hused
    have houtside : ¬ span.Inside mask.used.toNat k := fun h => Nat.not_lt.mpr hused h.2
    refine .inr (.inl ⟨Span.not_passes hwalks hreached hused, Span.not_endless houtside, mask', hrun, fun n => ?_⟩)
    rw [htest, Span.reaches_iff hstep hwalks houtside]
    simp only [span.index_eq]
  · refine .inr (.inr ⟨⟨hstep, fun i => ?_⟩, set_range_of_endless hwalks⟩)
    rw [span.walks_iff] at hwalks
    have hround := hwalks (i % 2 ^ 32) (Nat.mod_lt _ (Nat.two_pow_pos 32))
    rwa [Span.Inside, span.index_mod] at hround

end Ranges

section Lists

variable {spans : List Span} {mask : Bitmask} {size : ℕ}

theorem mem_read_cpus_cons {n : ℕ} (span : Span) (rest : List Span) :
    n ∈ read_cpus size (span :: rest) ↔ span.Reaches size n ∨ span.Passes size ∧ n ∈ read_cpus size rest := Iff.rfl

/-- The loop over the ranges returns as long as no range is endless, and sets the CPUs as they are read. -/
theorem parse_ranges_read (hne : spans ≠ []) {fuel r : ℕ} (hfuel : spans.length ≤ fuel) :
    (¬ Returns mask.used.toNat spans → parse_ranges fuel (some (print_list spans)) r mask = none) ∧
      (Returns mask.used.toNat spans →
        ∃ ok, ∃ mask' : Bitmask, parse_ranges fuel (some (print_list spans)) r mask = some (ok, mask') ∧
          ∀ n, mask'.test n = true ↔ mask.test n = true ∨ n ∈ read_cpus mask.used.toNat spans) := by
  induction spans generalizing fuel r mask with
  | nil => exact absurd rfl hne
  | cons span rest ih =>
    obtain ⟨fuel, rfl⟩ := Nat.exists_eq_succ_of_ne_zero (Nat.ne_of_gt (Nat.lt_of_lt_of_le (Nat.succ_pos _) hfuel))
    rw [print_list_cons, parse_ranges_item (endsItem_print_rest rest) span.comma_not_mem_print, span.read_item_print]
    by_cases hread : span.read.inc = 0 ∨ ¬ span.read.beg ≤ span.read.last
    · -- such a range ends the loop with an error
      have hunread : span.read_step = 0 ∨ span.read_high < span.index 0 := by
        refine hread.imp span.read_inc_eq_zero.mp fun hpast => ?_
        rw [← span.passed_iff]
        exact UInt32.not_le.mp hpast
      obtain ⟨hreaches, hpasses, hendless⟩ : (∀ n, ¬ span.Reaches mask.used.toNat n) ∧
          ¬ span.Passes mask.used.toNat ∧ ¬ span.Endless mask.used.toNat := Span.not_read hunread
      refine ⟨fun h => absurd ⟨hendless, fun hp => absurd hp hpasses⟩ h, fun _ => ⟨false, mask, ?_, fun n => ?_⟩⟩
      · obtain hzero | hpast := hread
        · rw [if_pos hzero]
        · split_ifs
          · rfl
          · simp only [hpast, if_false]
      · simp [read_cpus, hreaches, hpasses]
    · obtain ⟨hzero, hle⟩ := not_or.mp hread
      rw [not_not] at hle
      have hstep : span.read_step ≠ 0 := fun h => hzero (span.read_inc_eq_zero.mpr h)
      rw [if_neg hzero]
      simp only [hle, if_true, true_and]
      obtain ⟨hpasses, hendless, next, hsame, hset, htest⟩ | ⟨hpasses, hendless, next, hset, htest⟩ | ⟨hendless, hset⟩ :=
        span.set_range_cases mask hstep hle
      · rw [hset]
        cases rest with
        | nil =>
          refine ⟨fun h => absurd ⟨hendless, fun _ => trivial⟩ h, fun _ =>
            ⟨true, next, parse_ranges_none fuel 1 next, fun n => ?_⟩⟩
          rw [htest]
          simp [read_cpus]
        | cons other rest =>
          obtain ⟨hnone, hsome⟩ := @ih next (List.cons_ne_nil _ _) fuel 2 (Nat.le_of_succ_le_succ hfuel)
          rw [hsame] at hnone hsome
          rw [print_rest, token_cons, if_pos rfl, if_neg (List.cons_ne_nil _ _)]
          refine ⟨fun h => hnone fun hrest => h ⟨hendless, fun _ => hrest⟩, fun h => ?_⟩
          obtain ⟨ok, mask', hrun, hbits⟩ := hsome (h.2 hpasses)
          refine ⟨ok, mask', hrun, fun n => ?_⟩
          rw [hbits, htest, mem_read_cpus_cons span, and_iff_right hpasses, or_assoc]
      · rw [hset]
        refine ⟨fun h => absurd ⟨hendless, fun hp => absurd hp hpasses⟩ h, fun _ => ⟨false, next, rfl, fun n => ?_⟩⟩
        rw [htest]
        simp [read_cpus, hpasses]
      · rw [hset]
        exact ⟨fun _ => rfl, fun h => absurd hendless h.1⟩

/-- A list of the grammar is parsed to an end exactly when no range up to that is endless. The bits
set are then the CPUs as they are read. -/
theorem x86_list_parse_bitmask_read (hne : spans ≠ []) (mask : Bitmask) :
    (¬ Returns mask.used.toNat spans → x86_list_parse_bitmask (print_list spans) mask = none) ∧
      (Returns mask.used.toNat spans →
        ∃ retval, ∃ mask' : Bitmask, x86_list_parse_bitmask (print_list spans) mask = some (retval, mask') ∧
          ∀ n, mask'.test n = true ↔ n ∈ read_cpus mask.used.toNat spans) := by
  obtain ⟨hnone, hsome⟩ := @parse_ranges_read spans mask.clear_all hne ((print_list spans).length + 1) 0
    (Nat.le_succ_of_le (length_le_print_list spans))
  rw [mask.used_clear_all] at hnone hsome
  rw [x86_list_parse_bitmask]
  refine ⟨fun h => by rw [hnone h, Option.map_none], fun h => ?_⟩
  obtain ⟨ok, mask', hrun, htest⟩ := hsome h
  refine ⟨if ok then 0 else 1, mask', by rw [hrun, Option.map_some], fun n => ?_⟩
  rw [htest, mask.test_clear_all]
  simp

/-- Only CPUs below the size of the mask are reached. -/
theorem lt_of_mem_read_cpus {n : ℕ} (h : n ∈ read_cpus size spans) : n < size := by
  induction spans with
  | nil => cases h
  | cons span rest ih =>
    obtain ⟨-, i, rfl, hall⟩ | ⟨-, hrest⟩ := h
    · exact (hall i (Nat.le_refl i)).2
    · exact ih hrest

theorem Readable.lt (h : Readable size spans) {n : ℕ} (hn : n ∈ list_cpus spans) : n < size :=
  lt_of_mem_read_cpus (h.cpus ▸ hn)

end Lists

section Fitting

variable {span : Span} {size i n : ℕ}

theorem Span.Fits.index_eq (h : span.Fits) (hwf : span.WellFormed) (hi : i ≤ span.count) :
    span.index i = span.low + i * span.step := by
  rw [← span.index_eq, span.read_eq_word hwf h, Span.toNat_visit_word hwf h hi]

theorem Span.Fits.read_high_eq (h : span.Fits) (hwf : span.WellFormed) : span.read_high = span.high := by
  rw [← span.toNat_read.2.1, span.read_eq_word hwf h, Span.toNat_last_word h]

theorem Span.Fits.read_step_ne (h : span.Fits) (hwf : span.WellFormed) : span.read_step ≠ 0 := by
  rw [ne_eq, ← span.read_inc_eq_zero, span.read_eq_word hwf h]
  exact span.word_inc_ne hwf h

/-- A range whose numbers fit is left at its end, with its CPUs set, in a mask that is large enough. -/
theorem Span.Fits.reads (h : span.Fits) (hwf : span.WellFormed) (hsize : ∀ n ∈ span.cpus, n < size) :
    span.Passes size ∧ ¬ span.Endless size ∧ ∀ n, span.Reaches size n ↔ n ∈ span.cpus := by
  have hstep := h.read_step_ne hwf
  have hinside : ∀ i < span.count, span.Inside size i := by
    intro i hi
    rw [Span.Inside, h.index_eq hwf (Nat.le_of_lt hi), h.read_high_eq hwf]
    exact ⟨Span.le_high_of_lt hwf hi, hsize _ ((Span.mem_cpus hwf).mpr ⟨i, hi, rfl⟩)⟩
  have hpast : span.read_high < span.index span.count := by
    rw [h.index_eq hwf (Nat.le_refl _), h.read_high_eq hwf]
    exact Span.high_lt_past hwf
  have houtside : ¬ span.Inside size span.count := fun hin => Nat.not_lt.mpr hin.1 hpast
  refine ⟨⟨hstep, span.count, Nat.succ_pos _, hinside, hpast⟩, Span.not_endless houtside, fun n => ?_⟩
  rw [Span.reaches_iff hstep hinside houtside, Span.mem_cpus hwf]
  refine exists_congr fun i => and_congr_right fun hi => ?_
  rw [h.index_eq hwf (Nat.le_of_lt hi)]

/-- A list whose numbers fit is read as it is meant exactly in a mask that is large enough. -/
theorem readable_iff_of_fits {spans : List Span} (hwf : ∀ span ∈ spans, span.WellFormed ∧ span.Fits) :
    Readable size spans ↔ ∀ n ∈ list_cpus spans, n < size := by
  refine ⟨fun h n hn => h.lt hn, fun hsize => ?_⟩
  induction spans with
  | nil => exact ⟨trivial, by simp [read_cpus, list_cpus]⟩
  | cons span rest ih =>
    obtain ⟨hspan, hfits⟩ := hwf span List.mem_cons_self
    obtain ⟨hpasses, hendless, hreaches⟩ := hfits.reads hspan fun n hn =>
      hsize n ((mem_list_cpus_cons span rest).mpr (.inl hn))
    obtain ⟨hreturns, hcpus⟩ := ih (fun s hs => hwf s (List.mem_cons_of_mem span hs)) fun n hn =>
      hsize n ((mem_list_cpus_cons span rest).mpr (.inr hn))
    refine ⟨⟨hendless, fun _ => hreturns⟩, Set.ext fun n => ?_⟩
    rw [mem_read_cpus_cons, mem_list_cpus_cons, hreaches, and_iff_right hpasses, hcpus]

end Fitting

end pwrapi.x86
