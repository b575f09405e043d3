import PowerApi.Common.UidSet
import PowerApi.Lib.Scanf
import PowerApi.X86.Bitmask

open Scanf (dropWhile_append_of_stop takeWhile_append_of_stop)
open pwrapi.permissions (isspace scan_sign strtoul fscanf_uint)

namespace pwrapi.x86

/-- `x86_string_parse_token`: what follows the first of the given characters. -/
def x86_string_parse_token (str : Option (List Char)) (sep : Char) : Option (List Char) :=
  match str with
  | none => none
  | some str =>
    match str.dropWhile (· ≠ sep) with
    | [] => none
    | _ :: rest => some rest

/-- `sscanf` with `"%u%c"`: how many items it reads, and the number, if it reads one. -/
def sscanf_uint_char (str : List Char) : Option (ℕ × UInt32) :=
  (fscanf_uint str).map fun (value, rest) => (if rest = [] then 1 else 2, value)

/-- `tok1 != NULL && (tok2 == NULL || tok1 < tok2)`, for two ends of the same string. -/
def comes_first (tok1 tok2 : Option (List Char)) : Bool :=
  match tok1, tok2 with
  | none, _ => false
  | some _, none => true
  | some tok1, some tok2 => tok2.length < tok1.length

/-- The values of `beg`, `end` and `inc`. -/
structure CpuRange where
  beg : UInt32
  last : UInt32
  inc : UInt32
  deriving DecidableEq, Repr

/-- The part of the loop of `x86_list_parse_bitmask` that reads a range, with the tokens that were
read last. -/
def read_range (range : List Char) : Option (ℕ × CpuRange) := do
  let (r, beg) ← sscanf_uint_char range
  let tok1 := x86_string_parse_token (some range) '-'
  let tok2 := x86_string_parse_token (some range) ','
  if comes_first tok1 tok2 then
    let (r, last) ← sscanf_uint_char (← tok1)
    let tok1 := x86_string_parse_token tok1 ':'
    if comes_first tok1 tok2 then
      let (r, inc) ← sscanf_uint_char (← tok1)
      if inc = 0 then none else some (r, ⟨beg, last, inc⟩)
    else some (r, ⟨beg, last, 1⟩)
  else some (r, ⟨beg, beg, 1⟩)

/-- The loop that sets the bits of a range: whether it gets to the end of the range, and the mask. A
run of it that has not ended after as many rounds as there are values of `beg` never ends. -/
def set_range (last inc : UInt32) : ℕ → UInt32 → Bitmask → Option (Bool × Bitmask)
  | 0, _, _ => none
  | fuel + 1, beg, mask =>
    if beg ≤ last then
      if mask.used ≤ beg.toUInt64 then some (false, mask)
      else set_range last inc fuel (beg + inc) (mask.set beg.toNat)
    else some (true, mask)

/-- The loop over the ranges, with the tokens that were read last. -/
def parse_ranges : ℕ → Option (List Char) → ℕ → Bitmask → Option (Bool × Bitmask)
  | _, none, r, mask => some (r ≠ 2, mask)
  | 0, some _, _, _ => none
  | fuel + 1, some range, _, mask =>
    match read_range range with
    | none => some (false, mask)
    | some (r, { beg, last, inc }) =>
      if beg ≤ last then
        match set_range last inc (2 ^ 32) beg mask with
        | some (true, mask) => parse_ranges fuel (x86_string_parse_token (some range) ',') r mask
        | ended => ended
      else some (false, mask)

/-- `x86_list_parse_bitmask`, with the mask it leaves. `none` is a run that does not end. -/
def x86_list_parse_bitmask (list : List Char) (mask : Bitmask) : Option (Int × Bitmask) :=
  (parse_ranges (list.length + 1) (some list) 0 mask.clear_all).map
    fun (ok, mask) => (if ok then 0 else 1, mask)

/-- A range as it is read from an item by itself, with what follows the number that is read last. -/
def read_item (item : List Char) : Option (CpuRange × List Char) := do
  let (beg, rest) ← fscanf_uint item
  match x86_string_parse_token (some item) '-' with
  | none => some (⟨beg, beg, 1⟩, rest)
  | some tok =>
    let (last, rest) ← fscanf_uint tok
    match x86_string_parse_token (some tok) ':' with
    | none => some (⟨beg, last, 1⟩, rest)
    | some tok =>
      let (inc, rest) ← fscanf_uint tok
      if inc = 0 then none else some (⟨beg, last, inc⟩, rest)

section Scan

variable {s t : List Char} {p : Char → Bool}

/-- What ends an item: the end of the string or a comma. -/
def EndsItem (t : List Char) : Prop := t = [] ∨ ∃ rest, t = ',' :: rest

theorem EndsItem.stop (ht : EndsItem t) (hp : p ',' = false) : ∀ c ∈ t.head?, p c = false := by
  intro c hc
  obtain rfl | ⟨rest, rfl⟩ := ht
  · cases hc
  · cases hc
    exact hp

theorem scan_sign_append (ht : EndsItem t) :
    scan_sign (s ++ t) = ((scan_sign s).1, (scan_sign s).2 ++ t) := by
  cases s with
  | nil =>
    obtain rfl | ⟨rest, rfl⟩ := ht
    · rfl
    · rfl
  | cons c s =>
    rw [List.cons_append]
    unfold scan_sign
    split
    · next heq =>
      obtain ⟨rfl, rfl⟩ := List.cons.inj heq
      rfl
    · next heq =>
      obtain ⟨rfl, rfl⟩ := List.cons.inj heq
      rfl
    · next hminus hplus =>
      split
      · next heq => exact absurd (by rw [List.cons.inj heq |>.1, (List.cons.inj heq).2]) (hminus (s ++ t))
      · next heq => exact absurd (by rw [List.cons.inj heq |>.1, (List.cons.inj heq).2]) (hplus (s ++ t))
      · rfl

/-- A number is read from an item as it is from the item by itself. -/
theorem fscanf_uint_append (ht : EndsItem t) :
    fscanf_uint (s ++ t) = (fscanf_uint s).map fun (value, rest) => (value, rest ++ t) := by
  have hspace := dropWhile_append_of_stop (s := s) (ht.stop (p := isspace) (by decide))
  have hsign := scan_sign_append (s := s.dropWhile isspace) ht
  rw [fscanf_uint, fscanf_uint, hspace, hsign]
  generalize scan_sign (s.dropWhile isspace) = scanned
  obtain ⟨negative, word⟩ := scanned
  have hdigits := takeWhile_append_of_stop (s := word) (ht.stop (p := Char.isDigit) (by decide))
  have hrest := dropWhile_append_of_stop (s := word) (ht.stop (p := Char.isDigit) (by decide))
  simp only [hdigits, hrest]
  split_ifs <;> rfl

end Scan

section Tokens

variable {s t item x : List Char} {sep : Char}

theorem token_nil (sep : Char) : x86_string_parse_token (some []) sep = none := rfl

theorem token_cons (c : Char) (s : List Char) (sep : Char) : x86_string_parse_token (some (c :: s)) sep =
    if c = sep then some s else x86_string_parse_token (some s) sep := by
  simp only [x86_string_parse_token, List.dropWhile_cons]
  by_cases h : c = sep
  · simp [h]
  · simp [h]

/-- A token is cut off behind the first separator. -/
theorem token_append_cons (h : sep ∉ s) : x86_string_parse_token (some (s ++ sep :: t)) sep = some t := by
  induction s with
  | nil => rw [List.nil_append, token_cons, if_pos rfl]
  | cons c s ih =>
    rw [List.mem_cons, not_or] at h
    rw [List.cons_append, token_cons, if_neg (Ne.symm h.1), ih h.2]

theorem token_append_of_not_mem (h : sep ∉ s) :
    x86_string_parse_token (some (s ++ t)) sep = x86_string_parse_token (some t) sep := by
  induction s with
  | nil => rfl
  | cons c s ih =>
    rw [List.mem_cons, not_or] at h
    rw [List.cons_append, token_cons, if_neg (Ne.symm h.1), ih h.2]

theorem token_eq_none (h : sep ∉ s) : x86_string_parse_token (some s) sep = none := by
  have happend := token_append_of_not_mem (t := []) h
  rwa [List.append_nil] at happend

/-- What a token is cut from. -/
theorem eq_of_token (h : x86_string_parse_token (some s) sep = some x) :
    ∃ w, sep ∉ w ∧ s = w ++ sep :: x := by
  induction s with
  | nil => cases h
  | cons c s ih =>
    rw [token_cons] at h
    split_ifs at h with hc
    · cases h
      exact ⟨[], List.not_mem_nil, by rw [hc, List.nil_append]⟩
    · obtain ⟨w, hw, rfl⟩ := ih h
      refine ⟨c :: w, ?_, rfl⟩
      rw [List.mem_cons, not_or]
      exact ⟨Ne.symm hc, hw⟩

theorem not_mem_of_token (h : x86_string_parse_token (some s) sep = none) : sep ∉ s := by
  induction s with
  | nil => exact List.not_mem_nil
  | cons c s ih =>
    rw [token_cons] at h
    split_ifs at h with hc
    rw [List.mem_cons, not_or]
    exact ⟨Ne.symm hc, ih h⟩

theorem token_eq_some_append (h : x86_string_parse_token (some s) sep = some x) (t : List Char) :
    x86_string_parse_token (some (s ++ t)) sep = some (x ++ t) := by
  obtain ⟨w, hw, rfl⟩ := eq_of_token h
  rw [List.append_assoc, List.cons_append, token_append_cons hw]

/-- A separator behind the next comma comes after it. -/
theorem not_comes_first (ht : EndsItem t) (hsep : sep ≠ ',') (hnone : x86_string_parse_token (some s) sep = none) :
    comes_first (x86_string_parse_token (some (s ++ t)) sep) (x86_string_parse_token (some t) ',') = false := by
  rw [token_append_of_not_mem (not_mem_of_token hnone)]
  obtain rfl | ⟨rest, rfl⟩ := ht
  · rfl
  · rw [token_cons, if_neg (Ne.symm hsep), token_cons, if_pos rfl]
    cases htok : x86_string_parse_token (some rest) sep with
    | none => rfl
    | some y =>
      obtain ⟨w, -, hw⟩ := eq_of_token htok
      have hrest := congrArg List.length hw
      rw [List.length_append, List.length_cons] at hrest
      exact decide_eq_false (by omega)

theorem comes_first_append (ht : EndsItem t) (x : List Char) :
    comes_first (some (x ++ t)) (x86_string_parse_token (some t) ',') = true := by
  obtain rfl | ⟨rest, rfl⟩ := ht
  · rfl
  · rw [token_cons, if_pos rfl]
    refine decide_eq_true ?_
    rw [List.length_append, List.length_cons]
    omega

theorem sscanf_uint_char_append (ht : EndsItem t) (s : List Char) : sscanf_uint_char (s ++ t) =
    (fscanf_uint s).map fun (value, rest) => (if rest = [] ∧ t = [] then 1 else 2, value) := by
  rw [sscanf_uint_char, fscanf_uint_append ht, Option.map_map]
  congr 1
  funext ⟨value, rest⟩
  simp only [Function.comp_apply, List.append_eq_nil_iff]

/-- A range is read from an item as if the item were all there is, but for what follows the number that
is read last. -/
theorem read_range_append (ht : EndsItem t) (hitem : ',' ∉ item) : read_range (item ++ t) =
    (read_item item).map fun (range, rest) => (if rest = [] ∧ t = [] then 1 else 2, range) := by
  have hcomma : x86_string_parse_token (some (item ++ t)) ',' = x86_string_parse_token (some t) ',' :=
    token_append_of_not_mem hitem
  rw [read_range, read_item, sscanf_uint_char_append ht, hcomma]
  cases fscanf_uint item with
  | none => rfl
  | some first =>
    obtain ⟨beg, rest⟩ := first
    simp only [Option.bind_eq_bind, Option.map_some, Option.bind_some]
    cases hdash : x86_string_parse_token (some item) '-' with
    | none => rw [not_comes_first ht (by decide) hdash, if_neg (by decide)]; rfl
    | some tok =>
      rw [token_eq_some_append hdash, if_pos (comes_first_append ht tok), Option.bind_some,
        sscanf_uint_char_append ht]
      dsimp only
      cases fscanf_uint tok with
      | none => rfl
      | some second =>
        obtain ⟨last, rest⟩ := second
        simp only [Option.map_some, Option.bind_some]
        cases hcolon : x86_string_parse_token (some tok) ':' with
        | none => rw [not_comes_first ht (by decide) hcolon, if_neg (by decide)]; rfl
        | some tok =>
          rw [token_eq_some_append hcolon, if_pos (comes_first_append ht tok), Option.bind_some,
            sscanf_uint_char_append ht]
          dsimp only
          cases fscanf_uint tok with
          | none => rfl
          | some third =>
            obtain ⟨inc, rest⟩ := third
            simp only [Option.map_some, Option.bind_some]
            by_cases hzero : inc = 0
            · rw [if_pos hzero, if_pos hzero]
              rfl
            · rw [if_neg hzero, if_neg hzero]
              rfl

end Tokens

section Walks

/-- The value of `beg` in the given round of the loop over a range. -/
def visit : ℕ → UInt32 → UInt32 → UInt32
  | 0, beg, _ => beg
  | k + 1, beg, inc => visit k (beg + inc) inc

theorem toNat_visit (k : ℕ) (beg inc : UInt32) :
    (visit k beg inc).toNat = (beg.toNat + k * inc.toNat) % 2 ^ 32 := by
  induction k generalizing beg with
  | zero =>
    rw [visit, Nat.zero_mul, Nat.add_zero, Nat.mod_eq_of_lt beg.toNat_lt]
  | succ k ih =>
    rw [visit, ih, UInt32.toNat_add, Nat.mod_add_mod, Nat.succ_mul, Nat.add_assoc, Nat.add_comm inc.toNat]

/-- The loop goes round `k` times without reaching the end of the range or of the mask. -/
def Walks (used : UInt64) (range : CpuRange) (k : ℕ) : Prop :=
  ∀ i < k, visit i range.beg range.inc ≤ range.last ∧ (visit i range.beg range.inc).toNat < used.toNat

/-- The loop reaches the end of the range. -/
def Ends (used : UInt64) (range : CpuRange) : Prop :=
  ∃ k, Walks used range k ∧ range.last < visit k range.beg range.inc

/-- The loop reaches a CPU of the range that is not below the end of the mask. -/
def Overruns (used : UInt64) (range : CpuRange) : Prop :=
  ∃ k, Walks used range k ∧ visit k range.beg range.inc ≤ range.last ∧
    used.toNat ≤ (visit k range.beg range.inc).toNat

variable {used : UInt64} {range : CpuRange} {k fuel : ℕ} {mask : Bitmask}

theorem used_le_iff (used : UInt64) (beg : UInt32) : used ≤ beg.toUInt64 ↔ used.toNat ≤ beg.toNat := by
  rw [UInt64.le_iff_toNat_le, UInt32.toNat_toUInt64]

/-- The rounds of the loop set the bits that they visit. -/
theorem set_range_walk {beg last inc : UInt32} (h : Walks mask.used ⟨beg, last, inc⟩ k) :
    ∃ mask' : Bitmask, mask'.used = mask.used ∧
      set_range last inc (k + fuel) beg mask = set_range last inc fuel (visit k beg inc) mask' ∧
      ∀ n, mask'.test n = true ↔ mask.test n = true ∨ ∃ i < k, n = (visit i beg inc).toNat := by
  induction k generalizing beg mask with
  | zero => exact ⟨mask, rfl, by rw [Nat.zero_add, visit], by simp⟩
  | succ k ih =>
    obtain ⟨hle, hlt⟩ := h 0 (Nat.succ_pos k)
    simp only [visit] at hle hlt
    have hrest : Walks (mask.set beg.toNat).used ⟨beg + inc, last, inc⟩ k :=
      fun i hi => h (i + 1) (Nat.succ_lt_succ hi)
    obtain ⟨mask', hused, hrun, htest⟩ := ih hrest
    refine ⟨mask', hused, ?_, ?_⟩
    · rw [Nat.succ_add, set_range, if_pos hle, if_neg (by rw [used_le_iff]; omega)]
      exact hrun
    · intro n
      rw [htest, Bitmask.test_set hlt, Bool.or_eq_true, decide_eq_true_eq]
      constructor
      · rintro ((rfl | hn) | ⟨i, hi, rfl⟩)
        · exact .inr ⟨0, Nat.succ_pos k, rfl⟩
        · exact .inl hn
        · exact .inr ⟨i + 1, Nat.succ_lt_succ hi, rfl⟩
      · rintro (hn | ⟨i, hi, rfl⟩)
        · exact .inl (.inr hn)
        · cases i with
          | zero => exact .inl (.inl rfl)
          | succ i => exact .inr ⟨i, Nat.lt_of_succ_lt_succ hi, rfl⟩

/-- The values of `beg` go round after as many rounds as there are of them. -/
theorem visit_add (k : ℕ) (beg inc : UInt32) : visit (k + 2 ^ 32) beg inc = visit k beg inc := by
  rw [← UInt32.toNat_inj, toNat_visit, toNat_visit, Nat.add_mul, ← Nat.add_assoc, Nat.add_mul_mod_self_left]

/-- What ends a walk does so before the values go round. -/
theorem lt_of_stop {stop : UInt32 → Prop} (hwalks : Walks used range k)
    (hno : ∀ beg, beg ≤ range.last → beg.toNat < used.toNat → ¬ stop beg)
    (hstop : stop (visit k range.beg range.inc)) : k < 2 ^ 32 := by
  by_contra hge
  obtain ⟨j, rfl⟩ := Nat.exists_eq_add_of_le (Nat.not_lt.mp hge)
  rw [Nat.add_comm, visit_add] at hstop
  obtain ⟨hle, hlt⟩ := hwalks j (by omega)
  exact hno _ hle hlt hstop

theorem set_range_of_walks (hwalks : Walks mask.used range k) (hlast : range.last < visit k range.beg range.inc) :
    ∃ mask' : Bitmask, mask'.used = mask.used ∧
      set_range range.last range.inc (2 ^ 32) range.beg mask = some (true, mask') ∧
      ∀ n, mask'.test n = true ↔ mask.test n = true ∨ ∃ i < k, n = (visit i range.beg range.inc).toNat := by
  have hk : k < 2 ^ 32 := lt_of_stop hwalks (fun beg hle _ => UInt32.not_lt.mpr hle) hlast
  obtain ⟨fuel, hfuel⟩ := Nat.exists_eq_add_of_le (Nat.succ_le_of_lt hk)
  obtain ⟨mask', hused, hrun, htest⟩ := @set_range_walk k (fuel + 1) mask _ _ _ hwalks
  refine ⟨mask', hused, ?_, htest⟩
  rw [hfuel, Nat.succ_add, ← Nat.add_succ, hrun, set_range, if_neg (UInt32.not_le.mpr hlast)]

theorem set_range_of_overruns (hwalks : Walks mask.used range k) (hle : visit k range.beg range.inc ≤ range.last)
    (hused : mask.used.toNat ≤ (visit k range.beg range.inc).toNat) :
    ∃ mask' : Bitmask, mask'.used = mask.used ∧
      set_range range.last range.inc (2 ^ 32) range.beg mask = some (false, mask') ∧
      ∀ n, mask'.test n = true ↔ mask.test n = true ∨ ∃ i < k, n = (visit i range.beg range.inc).toNat := by
  have hk : k < 2 ^ 32 := lt_of_stop hwalks (fun beg _ hlt => Nat.not_le.mpr hlt) hused
  obtain ⟨fuel, hfuel⟩ := Nat.exists_eq_add_of_le (Nat.succ_le_of_lt hk)
  obtain ⟨mask', hsame, hrun, htest⟩ := @set_range_walk k (fuel + 1) mask _ _ _ hwalks
  refine ⟨mask', hsame, ?_, htest⟩
  rw [hfuel, Nat.succ_add, ← Nat.add_succ, hrun, set_range, if_pos hle, hsame, if_pos ((used_le_iff _ _).mpr hused)]

theorem set_range_of_endless (h : Walks mask.used range (2 ^ 32)) :
    set_range range.last range.inc (2 ^ 32) range.beg mask = none := by
  obtain ⟨mask', -, hrun, -⟩ := @set_range_walk (2 ^ 32) 0 mask _ _ _ h
  exact hrun

/-- A walk ends, or overruns, or goes on forever. -/
theorem walks_cases (used : UInt64) (range : CpuRange) :
    Ends used range ∨ Overruns used range ∨ Walks used range (2 ^ 32) := by
  by_cases hall : Walks used range (2 ^ 32)
  · exact .inr (.inr hall)
  · -- the first round in which the walk stops
    obtain ⟨k, hwalks, hnot⟩ : ∃ k, Walks used range k ∧ ¬ Walks used range (k + 1) := by
      by_contra hnone
      refine hall ?_
      suffices hk : ∀ k, Walks used range k from hk _
      intro k
      induction k with
      | zero => exact fun i hi => absurd hi (Nat.not_lt_zero i)
      | succ k ih =>
        by_contra hnext
        exact hnone ⟨k, ih, hnext⟩
    by_cases hle : visit k range.beg range.inc ≤ range.last
    · refine .inr (.inl ⟨k, hwalks, hle, ?_⟩)
      by_contra hlt
      refine hnot fun i hi => ?_
      rcases Nat.lt_or_eq_of_le (Nat.le_of_lt_succ hi) with hlt' | rfl
      · exact hwalks i hlt'
      · exact ⟨hle, Nat.not_le.mp hlt⟩
    · exact .inl ⟨k, hwalks, UInt32.not_le.mp hle⟩

end Walks

section Items

variable {item t : List Char} {fuel r : ℕ} {mask : Bitmask}

theorem parse_ranges_none (fuel r : ℕ) (mask : Bitmask) :
    parse_ranges fuel none r mask = some (decide (r ≠ 2), mask) := by
  cases fuel <;> rfl

/-- One round of the loop over the ranges. -/
theorem parse_ranges_item (ht : EndsItem t) (hitem : ',' ∉ item) :
    parse_ranges (fuel + 1) (some (item ++ t)) r mask =
      match read_item item with
      | none => some (false, mask)
      | some (range, rest) =>
        if range.beg ≤ range.last then
          match set_range range.last range.inc (2 ^ 32) range.beg mask with
          | some (true, mask) =>
            parse_ranges fuel (x86_string_parse_token (some t) ',') (if rest = [] ∧ t = [] then 1 else 2) mask
          | ended => ended
        else some (false, mask) := by
  rw [parse_ranges, read_range_append ht hitem, token_append_of_not_mem hitem]
  cases read_item item with
  | none => rfl
  | some read => rfl

end Items

section Bounds

variable {mask mask' : Bitmask} {ok : Bool} {beg last inc : UInt32} {fuel r : ℕ} {range : Option (List Char)}

/-- No bit is set beyond the end of the mask. -/
def Bitmask.Bounded (mask : Bitmask) : Prop := ∀ n, mask.test n = true → n < mask.used.toNat

theorem Bitmask.bounded_clear_all (mask : Bitmask) : mask.clear_all.Bounded := by
  intro n hn
  rw [mask.test_clear_all] at hn
  cases hn

theorem Bitmask.Bounded.set (h : mask.Bounded) {bit : ℕ} (hbit : bit < mask.used.toNat) :
    (mask.set bit).Bounded := by
  intro n hn
  rw [Bitmask.test_set hbit, Bool.or_eq_true, decide_eq_true_eq] at hn
  obtain rfl | hn := hn
  · exact hbit
  · exact h n hn

theorem set_range_bounded (h : set_range last inc fuel beg mask = some (ok, mask')) (hmask : mask.Bounded) :
    mask'.used = mask.used ∧ mask'.Bounded := by
  induction fuel generalizing beg mask with
  | zero => cases h
  | succ fuel ih =>
    rw [set_range] at h
    split_ifs at h with hle hused
    · cases h
      exact ⟨rfl, hmask⟩
    · rw [used_le_iff, Nat.not_le] at hused
      have hrest := ih h (hmask.set hused)
      rwa [mask.used_set] at hrest
    · cases h
      exact ⟨rfl, hmask⟩

theorem parse_ranges_bounded (h : parse_ranges fuel range r mask = some (ok, mask')) (hmask : mask.Bounded) :
    mask'.used = mask.used ∧ mask'.Bounded := by
  induction fuel generalizing range r mask with
  | zero =>
    cases range with
    | none =>
      cases h
      exact ⟨rfl, hmask⟩
    | some s => cases h
  | succ fuel ih =>
    cases range with
    | none =>
      cases h
      exact ⟨rfl, hmask⟩
    | some s =>
      rw [parse_ranges] at h
      split at h
      · cases h
        exact ⟨rfl, hmask⟩
      · split_ifs at h
        · split at h
          · next next hrun =>
            obtain ⟨hused, hnext⟩ := set_range_bounded hrun hmask
            rw [← hused]
            exact ih h hnext
          · exact set_range_bounded h hmask
        · cases h
          exact ⟨rfl, hmask⟩

/-- Whatever the list holds, no bit is set beyond the end of the mask. -/
theorem x86_list_parse_bitmask_bounded {list : List Char} {retval : ℤ}
    (h : x86_list_parse_bitmask list mask = some (retval, mask')) : mask'.used = mask.used ∧ mask'.Bounded := by
  rw [x86_list_parse_bitmask, Option.map_eq_some_iff] at h
  obtain ⟨⟨ok, ended⟩, hrun, hpair⟩ := h
  obtain ⟨-, rfl⟩ := Prod.mk.inj hpair
  have hbounded := parse_ranges_bounded hrun mask.bounded_clear_all
  rwa [mask.used_clear_all] at hbounded

end Bounds

end pwrapi.x86
