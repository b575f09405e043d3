import Mathlib.Data.Nat.Find
import Mathlib.Data.Set.Defs
import PowerApi.X86.CpuList

open Scanf (dropWhile_append_of_stop takeWhile_append_of_stop)
open pwrapi.permissions (isspace strtoul fscanf_uint isDigit_not_isspace scan_sign_of_isDigit strtoul_of_value)

namespace pwrapi.x86

/-- A number of a CPU list. -/
structure Num where
  chars : List Char
  nonempty : chars ≠ []
  digits : ∀ c ∈ chars, c.isDigit = true

namespace Num

def value (num : Num) : ℕ := Nat.ofDigitChars 10 num.chars 0

/-- A number as the kernel prints it. -/
def print (n : ℕ) : Num where
  chars := Nat.toDigits 10 n
  nonempty := Nat.toDigits_ne_nil
  digits := fun _ hc => Nat.isDigit_of_mem_toDigits (by decide) (by decide) hc

@[simp] theorem value_print (n : ℕ) : (print n).value = n := Nat.ofDigitChars_ten_toDigits

end Num

/-- A range of a CPU list: one CPU, or all from a low to a high one, or every so many of them. -/
inductive Span where
  | cpu (num : Num)
  | range (low high : Num)
  | stepped (low high inc : Num)

namespace Span

def low : Span → ℕ
  | cpu num => num.value
  | range low _ => low.value
  | stepped low _ _ => low.value

def high : Span → ℕ
  | cpu num => num.value
  | range _ high => high.value
  | stepped _ high _ => high.value

def step : Span → ℕ
  | cpu _ => 1
  | range _ _ => 1
  | stepped _ _ inc => inc.value

/-- From low to high, by at least one. -/
structure WellFormed (span : Span) : Prop where
  low_le : span.low ≤ span.high
  step_pos : 1 ≤ span.step

def print : Span → List Char
  | cpu num => num.chars
  | range low high => low.chars ++ '-' :: high.chars
  | stepped low high inc => low.chars ++ '-' :: (high.chars ++ ':' :: inc.chars)

/-- The CPUs that a range denotes. -/
def cpus (span : Span) : Set ℕ := {n | ∃ i, n = span.low + i * span.step ∧ n ≤ span.high}

/-- How many CPUs a range denotes. -/
def count (span : Span) : ℕ := (span.high - span.low) / span.step + 1

/-- The numbers of a range have 32 bits, and so has the one after its last CPU. -/
structure Fits (span : Span) : Prop where
  high_lt : span.high < 2 ^ 32
  step_lt : span.step < 2 ^ 32
  past_lt : span.low + span.count * span.step < 2 ^ 32

end Span

/-- A list in the grammar of CPU lists. -/
def print_list : List Span → List Char
  | [] => []
  | [span] => span.print
  | span :: rest => span.print ++ ',' :: print_list rest

/-- The CPUs that a list denotes. -/
def list_cpus (spans : List Span) : Set ℕ := {n | ∃ span ∈ spans, n ∈ span.cpus}

section Numbers

variable {num : Num} {t : List Char}

/-- A number is read up to the next character that is no digit. -/
theorem Num.fscanf_uint (num : Num) (ht : ∀ c ∈ t.head?, c.isDigit = false) :
    permissions.fscanf_uint (num.chars ++ t) = some ((strtoul false num.chars).toUInt32, t) := by
  obtain ⟨c, word, hword⟩ := List.exists_cons_of_ne_nil num.nonempty
  have hc : c.isDigit := num.digits c (by rw [hword]; exact List.mem_cons_self)
  have hspace : (num.chars ++ t).dropWhile isspace = num.chars ++ t := by
    rw [hword, List.cons_append, List.dropWhile_cons, isDigit_not_isspace hc, if_neg (by decide)]
  have hsign : permissions.scan_sign (num.chars ++ t) = (false, num.chars ++ t) := by
    rw [hword, List.cons_append, scan_sign_of_isDigit hc]
  have htake : (num.chars ++ t).takeWhile Char.isDigit = num.chars := by
    rw [takeWhile_append_of_stop ht, List.takeWhile_eq_self_iff]
    exact num.digits
  have hdrop : (num.chars ++ t).dropWhile Char.isDigit = t := by
    rw [dropWhile_append_of_stop ht, List.dropWhile_eq_nil_iff.mpr num.digits, List.nil_append]
  rw [permissions.fscanf_uint, hspace, hsign]
  simp only [htake, hdrop, List.isEmpty_eq_false_iff.mpr num.nonempty, Bool.false_eq_true, if_false]

theorem Num.toUInt32 (h : num.value < 2 ^ 32) : (strtoul false num.chars).toUInt32 = UInt32.ofNat num.value := by
  refine strtoul_of_value ?_
  rw [UInt32.toNat_ofNat', Nat.mod_eq_of_lt h]
  rfl

theorem Num.not_mem (num : Num) {c : Char} (hc : c.isDigit = false) : c ∉ num.chars := by
  intro hmem
  rw [num.digits c hmem] at hc
  cases hc

end Numbers

namespace Span

variable {span : Span} {mask : Bitmask} {i n : ℕ}

/-- The range as it is read when its numbers fit. -/
def word (span : Span) : CpuRange :=
  ⟨UInt32.ofNat span.low, UInt32.ofNat span.high, UInt32.ofNat span.step⟩

/-- The range as it is read. -/
def read (span : Span) : CpuRange :=
  match span with
  | cpu num => ⟨(strtoul false num.chars).toUInt32, (strtoul false num.chars).toUInt32, 1⟩
  | range low high => ⟨(strtoul false low.chars).toUInt32, (strtoul false high.chars).toUInt32, 1⟩
  | stepped low high inc => ⟨(strtoul false low.chars).toUInt32, (strtoul false high.chars).toUInt32,
      (strtoul false inc.chars).toUInt32⟩

theorem comma_not_mem_print (span : Span) : ',' ∉ span.print := by
  have hnum : ∀ num : Num, ',' ∉ num.chars := fun num => num.not_mem (by decide)
  cases span with
  | cpu num => exact hnum num
  | range low high => simp [print, hnum]
  | stepped low high inc => simp [print, hnum]

theorem print_ne_nil (span : Span) : span.print ≠ [] := by
  cases span with
  | cpu num => exact num.nonempty
  | range low high => simp [print]
  | stepped low high inc => simp [print]

theorem Fits.low_lt (h : span.Fits) (hwf : span.WellFormed) : span.low < 2 ^ 32 :=
  Nat.lt_of_le_of_lt hwf.low_le h.high_lt

theorem read_eq_word (hwf : span.WellFormed) (h : span.Fits) : span.read = span.word := by
  have hlow := h.low_lt hwf
  have hhigh := h.high_lt
  have hstep := h.step_lt
  cases span with
  | cpu num =>
    rw [read, num.toUInt32 hlow]
    rfl
  | range low high =>
    rw [read, low.toUInt32 hlow, high.toUInt32 hhigh]
    rfl
  | stepped low high inc =>
    rw [read, low.toUInt32 hlow, high.toUInt32 hhigh, inc.toUInt32 hstep]
    rfl

theorem word_inc_ne (hwf : span.WellFormed) (h : span.Fits) : span.word.inc ≠ 0 := by
  have hpos := hwf.step_pos
  rw [word, ne_eq, ← UInt32.toNat_inj, UInt32.toNat_ofNat', UInt32.toNat_zero, Nat.mod_eq_of_lt h.step_lt]
  omega

/-- A range is read whole, unless its step is read as 0. -/
theorem read_item_print (span : Span) :
    read_item span.print = if span.read.inc = 0 then none else some (span.read, []) := by
  have hdash : ∀ num : Num, '-' ∉ num.chars := fun num => num.not_mem (by decide)
  have hcolon : ∀ num : Num, ':' ∉ num.chars := fun num => num.not_mem (by decide)
  have hlast : ∀ num : Num, fscanf_uint num.chars = some ((strtoul false num.chars).toUInt32, []) := by
    intro num
    have hread := num.fscanf_uint (t := []) (by simp)
    rwa [List.append_nil] at hread
  cases span with
  | cpu num =>
    rw [read_item, print, hlast, token_eq_none (hdash num)]
    rfl
  | range low high =>
    rw [read_item, print, low.fscanf_uint (by simp), token_append_cons (hdash low)]
    simp only [Option.bind_eq_bind, Option.bind_some]
    rw [hlast, token_eq_none (hcolon high)]
    rfl
  | stepped low high inc =>
    rw [read_item, print, low.fscanf_uint (by simp), token_append_cons (hdash low)]
    simp only [Option.bind_eq_bind, Option.bind_some]
    rw [high.fscanf_uint (by simp), token_append_cons (hcolon high)]
    simp only [Option.bind_some]
    rw [hlast, Option.bind_some]
    rfl

theorem mem_cpus (hwf : span.WellFormed) : n ∈ span.cpus ↔ ∃ i < span.count, n = span.low + i * span.step := by
  have hlow := hwf.low_le
  rw [cpus, Set.mem_ofPred_eq, count]
  refine exists_congr fun i => ?_
  rw [Nat.lt_succ_iff, Nat.le_div_iff_mul_le hwf.step_pos]
  constructor
  · rintro ⟨rfl, hle⟩
    exact ⟨by omega, rfl⟩
  · rintro ⟨hle, rfl⟩
    exact ⟨rfl, by omega⟩

/-- The loop over a range visits its CPUs in turn, and the number after them. -/
theorem toNat_visit_word (hwf : span.WellFormed) (h : span.Fits) (hi : i ≤ span.count) :
    (visit i span.word.beg span.word.inc).toNat = span.low + i * span.step := by
  have hpast := h.past_lt
  have hmul := Nat.mul_le_mul_right span.step hi
  rw [toNat_visit, word, UInt32.toNat_ofNat', UInt32.toNat_ofNat', Nat.mod_eq_of_lt (h.low_lt hwf),
    Nat.mod_eq_of_lt h.step_lt, Nat.mod_eq_of_lt (by omega)]

theorem toNat_last_word (h : span.Fits) : span.word.last.toNat = span.high := by
  rw [word, UInt32.toNat_ofNat', Nat.mod_eq_of_lt h.high_lt]

theorem beg_le_last (hwf : span.WellFormed) (h : span.Fits) : span.word.beg ≤ span.word.last := by
  rw [UInt32.le_iff_toNat_le, toNat_last_word h, word, UInt32.toNat_ofNat', Nat.mod_eq_of_lt (h.low_lt hwf)]
  exact hwf.low_le

theorem le_high_of_lt (hwf : span.WellFormed) (hi : i < span.count) : span.low + i * span.step ≤ span.high := by
  obtain ⟨j, heq, hle⟩ := (mem_cpus hwf).mpr ⟨i, hi, rfl⟩
  exact hle

theorem high_lt_past (hwf : span.WellFormed) : span.high < span.low + span.count * span.step := by
  have hlow := hwf.low_le
  have hdiv := Nat.lt_mul_div_succ (span.high - span.low) hwf.step_pos
  rw [count, Nat.mul_comm]
  omega

theorem walks (hwf : span.WellFormed) (h : span.Fits) {k : ℕ} (hk : k ≤ span.count) {used : UInt64}
    (hused : ∀ i < k, span.low + i * span.step < used.toNat) : Walks used span.word k := by
  intro i hi
  have hvisit := toNat_visit_word hwf h (i := i) (by omega)
  rw [UInt32.le_iff_toNat_le, hvisit, toNat_last_word h]
  exact ⟨le_high_of_lt hwf (by omega), hused i hi⟩

/-- A range whose CPUs are all below the end of the mask is set in it. -/
theorem set_range_eq (hwf : span.WellFormed) (h : span.Fits) (hused : ∀ n ∈ span.cpus, n < mask.used.toNat) :
    ∃ mask' : Bitmask, mask'.used = mask.used ∧
      set_range span.word.last span.word.inc (2 ^ 32) span.word.beg mask = some (true, mask') ∧
      ∀ n, mask'.test n = true ↔ mask.test n = true ∨ n ∈ span.cpus := by
  have hwalks := walks hwf h (Nat.le_refl _) fun i hi => hused _ ((mem_cpus hwf).mpr ⟨i, hi, rfl⟩)
  obtain ⟨mask', hsame, hrun, htest⟩ := set_range_of_walks hwalks (by
    rw [UInt32.lt_iff_toNat_lt, toNat_visit_word hwf h (Nat.le_refl _), toNat_last_word h]
    exact high_lt_past hwf)
  refine ⟨mask', hsame, hrun, fun n => ?_⟩
  rw [htest, mem_cpus hwf]
  refine or_congr_right (exists_congr fun i => and_congr_right fun hi => ?_)
  rw [toNat_visit_word hwf h (Nat.le_of_lt hi)]

/-- A range with a CPU at or behind the end of the mask overruns it. -/
theorem overruns (hwf : span.WellFormed) (h : span.Fits) {used : UInt64}
    (hover : ∃ n ∈ span.cpus, used.toNat ≤ n) : Overruns used span.word := by
  obtain ⟨n, hn, hle⟩ := hover
  obtain ⟨i, hi, rfl⟩ := (mem_cpus hwf).mp hn
  -- the first of those CPUs
  have hexists : ∃ k, used.toNat ≤ span.low + k * span.step := ⟨i, hle⟩
  have hfirst := Nat.find_spec hexists
  have hbefore : ∀ j < Nat.find hexists, span.low + j * span.step < used.toNat := fun j hj =>
    Nat.not_le.mp (Nat.find_min hexists hj)
  have hcount : Nat.find hexists < span.count := Nat.lt_of_le_of_lt (Nat.find_min' hexists hle) hi
  refine ⟨Nat.find hexists, walks hwf h (Nat.le_of_lt hcount) hbefore, ?_, ?_⟩
  · rw [UInt32.le_iff_toNat_le, toNat_visit_word hwf h (Nat.le_of_lt hcount), toNat_last_word h]
    exact le_high_of_lt hwf hcount
  · rw [toNat_visit_word hwf h (Nat.le_of_lt hcount)]
    exact hfirst

end Span

/-- What follows the first range of a list. -/
def print_rest : List Span → List Char
  | [] => []
  | span :: rest => ',' :: print_list (span :: rest)

section Lists

variable {spans : List Span} {mask : Bitmask} {n : ℕ}

theorem print_list_cons (span : Span) (rest : List Span) :
    print_list (span :: rest) = span.print ++ print_rest rest := by
  cases rest with
  | nil => rw [print_list, print_rest, List.append_nil]
  | cons next rest =>
    rw [print_list, print_rest]
    exact fun h => List.cons_ne_nil next rest h

/-- The characters of the grammar. -/
theorem mem_print_list {spans : List Span} {c : Char} (h : c ∈ print_list spans) :
    c.isDigit = true ∨ c ∈ ['-', ':', ','] := by
  have hnum : ∀ num : Num, c ∈ num.chars → c.isDigit = true := fun num => num.digits c
  have hspan : ∀ span : Span, c ∈ span.print → c.isDigit = true ∨ c ∈ ['-', ':', ','] := by
    intro span hc
    cases span with
    | cpu num => exact .inl (hnum num hc)
    | range low high =>
      simp only [Span.print, List.mem_append, List.mem_cons] at hc
      obtain hc | rfl | hc := hc
      · exact .inl (hnum low hc)
      · exact .inr (by decide)
      · exact .inl (hnum high hc)
    | stepped low high inc =>
      simp only [Span.print, List.mem_append, List.mem_cons] at hc
      obtain hc | rfl | hc | rfl | hc := hc
      · exact .inl (hnum low hc)
      · exact .inr (by decide)
      · exact .inl (hnum high hc)
      · exact .inr (by decide)
      · exact .inl (hnum inc hc)
  induction spans with
  | nil => cases h
  | cons span rest ih =>
    rw [print_list_cons, List.mem_append] at h
    obtain hc | hc := h
    · exact hspan span hc
    cases rest with
    | nil => cases hc
    | cons next rest =>
      rw [print_rest, List.mem_cons] at hc
      obtain rfl | hc := hc
      · exact .inr (by decide)
      · exact ih hc

theorem endsItem_print_rest (rest : List Span) : EndsItem (print_rest rest) := by
  cases rest with
  | nil => exact .inl rfl
  | cons next rest => exact .inr ⟨_, rfl⟩

theorem mem_list_cpus_cons (span : Span) (spans : List Span) :
    n ∈ list_cpus (span :: spans) ↔ n ∈ span.cpus ∨ n ∈ list_cpus spans := by
  simp [list_cpus]

theorem length_le_print_list (spans : List Span) : spans.length ≤ (print_list spans).length := by
  induction spans with
  | nil => exact Nat.le_refl 0
  | cons span rest ih =>
    have hpos := List.length_pos_iff.mpr span.print_ne_nil
    rw [print_list_cons, List.length_append, List.length_cons]
    cases rest with
    | nil => exact hpos
    | cons next rest =>
      have hrest : (print_rest (next :: rest)).length = (print_list (next :: rest)).length + 1 := rfl
      omega

/-- The loop over the ranges sets the CPUs of all of them, up to one that is beyond the mask. -/
theorem parse_ranges_print (hwf : ∀ span ∈ spans, span.WellFormed ∧ span.Fits) (hne : spans ≠ []) {fuel r : ℕ}
    (hfuel : spans.length ≤ fuel) :
    ∃ ok, ∃ mask' : Bitmask, parse_ranges fuel (some (print_list spans)) r mask = some (ok, mask') ∧
      mask'.used = mask.used ∧ (ok = true ↔ ∀ n ∈ list_cpus spans, n < mask.used.toNat) ∧
      (ok = true → ∀ n, mask'.test n = true ↔ mask.test n = true ∨ n ∈ list_cpus spans) := by
  induction spans generalizing fuel r mask with
  | nil => exact absurd rfl hne
  | cons span rest ih =>
    obtain ⟨hspan, hfits⟩ := hwf span List.mem_cons_self
    obtain ⟨fuel, rfl⟩ := Nat.exists_eq_succ_of_ne_zero (Nat.ne_of_gt (Nat.lt_of_lt_of_le (Nat.succ_pos _) hfuel))
    rw [print_list_cons, parse_ranges_item (endsItem_print_rest rest) span.comma_not_mem_print,
      span.read_item_print, span.read_eq_word hspan hfits, if_neg (span.word_inc_ne hspan hfits)]
    simp only [span.beg_le_last hspan hfits, if_true, true_and]
    by_cases hused : ∀ n ∈ span.cpus, n < mask.used.toNat
    · obtain ⟨next, hsame, hset, htest⟩ := span.set_range_eq hspan hfits hused
      rw [hset]
      cases rest with
      | nil =>
        refine ⟨true, next, parse_ranges_none fuel 1 next, hsame, ?_, fun _ n => ?_⟩
        · simpa [mem_list_cpus_cons, list_cpus] using hused
        · rw [htest, mem_list_cpus_cons]
          simp [list_cpus]
      | cons other rest =>
        obtain ⟨ok, mask', hrun, hkept, hok, hbits⟩ := @ih next (fun s hs => hwf s (List.mem_cons_of_mem span hs))
          (List.cons_ne_nil _ _) fuel 2 (Nat.le_of_succ_le_succ hfuel)
        refine ⟨ok, mask', ?_, hkept.trans hsame, ?_, ?_⟩
        · rw [print_rest, token_cons, if_pos rfl, if_neg (List.cons_ne_nil _ _)]
          exact hrun
        · rw [hok, hsame]
          simp only [mem_list_cpus_cons span]
          constructor
          · rintro hall n (hn | hn)
            · exact hused n hn
            · exact hall n hn
          · exact fun hall n hn => hall n (.inr hn)
        · intro htrue n
          rw [hbits htrue, htest, mem_list_cpus_cons span, or_assoc]
    · have hoverruns : ∃ n ∈ span.cpus, mask.used.toNat ≤ n := by simpa using hused
      obtain ⟨k, hwalks, hle, hover⟩ := span.overruns hspan hfits hoverruns
      obtain ⟨mask', hsame, hset, -⟩ := set_range_of_overruns hwalks hle hover
      rw [hset]
      refine ⟨false, mask', rfl, hsame, ?_, by simp⟩
      simp only [Bool.false_eq_true, false_iff]
      exact fun hall => hused fun n hn => hall n ((mem_list_cpus_cons span rest).mpr (.inl hn))

/-- A list whose numbers fit is read as what it denotes, for as long as that is in the mask. -/
theorem parse_print_list (hwf : ∀ span ∈ spans, span.WellFormed ∧ span.Fits) (hne : spans ≠ []) (mask : Bitmask) :
    ∃ retval, ∃ mask' : Bitmask, x86_list_parse_bitmask (print_list spans) mask = some (retval, mask') ∧
      mask'.used = mask.used ∧ (retval = 0 ↔ ∀ n ∈ list_cpus spans, n < mask.used.toNat) ∧
      (retval = 0 → ∀ n, mask'.test n = true ↔ n ∈ list_cpus spans) := by
  obtain ⟨ok, mask', hrun, hused, hok, htest⟩ := @parse_ranges_print spans mask.clear_all hwf hne
    ((print_list spans).length + 1) 0 (Nat.le_succ_of_le (length_le_print_list spans))
  refine ⟨if ok then 0 else 1, mask', ?_, hused, ?_, ?_⟩
  · rw [x86_list_parse_bitmask, hrun]
    rfl
  · rw [← mask.used_clear_all, ← hok]
    cases ok <;> simp
  · intro hzero n
    cases ok with
    | false => cases hzero
    | true =>
      rw [htest rfl, mask.test_clear_all]
      simp

/-- A range of numbers of 31 bits fits. -/
theorem Span.fits_of_lt {span : Span} (hwf : span.WellFormed) (hhigh : span.high < 2 ^ 31)
    (hstep : span.step < 2 ^ 31) : span.Fits := by
  refine ⟨by omega, by omega, ?_⟩
  have hlow := hwf.low_le
  have hdiv := Nat.div_mul_le_self (span.high - span.low) span.step
  rw [Span.count, Nat.succ_mul]
  omega

/-- Every list of numbers of 31 bits sets exactly the CPUs it denotes, and is refused just when one of
them is not below the size of the mask. -/
theorem x86_list_parse_bitmask_eq (spans : List Span) (mask : Bitmask) (hne : spans ≠ [])
    (hwf : ∀ span ∈ spans, span.WellFormed ∧ span.high < 2 ^ 31 ∧ span.step < 2 ^ 31) :
    ∃ retval, ∃ mask' : Bitmask, x86_list_parse_bitmask (print_list spans) mask = some (retval, mask') ∧
      mask'.used = mask.used ∧ (retval = 0 ↔ ∀ n ∈ list_cpus spans, n < mask.used.toNat) ∧
      (retval = 0 → ∀ n, mask'.test n = true ↔ n ∈ list_cpus spans) :=
  parse_print_list (fun span hspan =>
    have h := hwf span hspan
    ⟨h.1, Span.fits_of_lt h.1 h.2.1 h.2.2⟩) hne mask

theorem x86_list_parse_bitmask_eq_two : ∃ retval, ∃ mask' : Bitmask,
    x86_list_parse_bitmask (print_list [.range (.print 0) (.print 6), .stepped (.print 8) (.print 14) (.print 2)])
      ⟨16, [0], rfl⟩ = some (retval, mask') ∧ mask'.used = 16 ∧
      (retval = 0 ↔
        ∀ n ∈ list_cpus [.range (.print 0) (.print 6), .stepped (.print 8) (.print 14) (.print 2)], n < 16) ∧
      (retval = 0 → ∀ n, mask'.test n = true ↔
        n ∈ list_cpus [.range (.print 0) (.print 6), .stepped (.print 8) (.print 14) (.print 2)]) := by
  refine x86_list_parse_bitmask_eq _ ⟨16, [0], rfl⟩ (List.cons_ne_nil _ _) fun span hspan => ?_
  rw [List.mem_cons, List.mem_singleton] at hspan
  obtain rfl | rfl := hspan
  · refine ⟨⟨?_, ?_⟩, ?_, ?_⟩ <;> simp [Span.low, Span.high, Span.step]
  · refine ⟨⟨?_, ?_⟩, ?_, ?_⟩ <;> simp [Span.low, Span.high, Span.step]

end Lists

end pwrapi.x86
