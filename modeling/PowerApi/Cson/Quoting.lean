import PowerApi.Cson.Printed
import PowerApi.Cson.Tracks

namespace cson

theorem bind_ok {α β : Type} {x : Except Stop α} {f : α → Except Stop β} {b : β} (h : x >>= f = .ok b) :
    ∃ a, x = .ok a ∧ f a = .ok b := by
  cases x with
  | error stop => cases h
  | ok a => exact ⟨a, rfl, h⟩

theorem of_assert {condition : Bool} (h : assert condition = .ok ()) : condition = true := by
  cases condition with
  | false => cases h
  | true => rfl

/-! Digits -/

/-- The bits of a number above a place. -/
theorem and_high_bits {n w : ℕ} (k : ℕ) (hn : n < 2 ^ (k + w)) : n &&& ((2 ^ w - 1) <<< k) = n / 2 ^ k * 2 ^ k := by
  rw [← Nat.shiftRight_eq_div_pow, ← Nat.shiftLeft_eq]
  apply Nat.eq_of_testBit_eq
  intro i
  simp only [Nat.testBit_and, Nat.testBit_shiftLeft, Nat.testBit_shiftRight, Nat.testBit_two_pow_sub_one]
  by_cases hi : k ≤ i
  · by_cases hw : i - k < w
    · simp [hi, hw, Nat.add_sub_cancel' hi]
    · have hzero : n.testBit i = false :=
        Nat.testBit_lt_two_pow (Nat.lt_of_lt_of_le hn (Nat.pow_le_pow_right (by decide) (by omega)))
      simp [hi, hw, Nat.add_sub_cancel' hi, hzero]
  · simp [hi]

/-- Every digit is one of the sixteen. -/
theorem hex_digit {k : ℕ} (hk : k < 16) : hex_value (Nat.digitChar k).toUInt8 = k ∧ is_hex (Nat.digitChar k).toUInt8 = true := by
  have hall : ∀ k ∈ List.range 16, hex_value (Nat.digitChar k).toUInt8 = k ∧ is_hex (Nat.digitChar k).toUInt8 = true := by decide
  exact hall k (List.mem_range.mpr hk)

theorem utf16_unit_append (digits : Bytes) (b : UInt8) (hb : hex_value b < 16) :
    utf16_unit (digits ++ [b]) = utf16_unit digits * 16 + hex_value b := by
  have hor := @Nat.shiftLeft_add_eq_or_of_lt 4 (hex_value b) hb (utf16_unit digits)
  simp only [utf16_unit, List.foldl_append, List.foldl_cons, List.foldl_nil] at hor ⊢
  rw [← hor, Nat.shiftLeft_eq]

/-- The digits that a number is printed with are read back as the number. -/
theorem toDigits_hex (n : ℕ) :
    utf16_unit (bytes (Nat.toDigits 16 n)) = n ∧ ∀ b ∈ bytes (Nat.toDigits 16 n), is_hex b = true := by
  induction n using Nat.strong_induction_on with
  | _ n ih =>
    rw [Nat.toDigits_eq_if (by decide)]
    split
    · next hlt =>
      obtain ⟨hvalue, hhex⟩ := hex_digit hlt
      exact ⟨by simpa [bytes, utf16_unit] using hvalue, by simpa [bytes] using hhex⟩
    · next hge =>
      obtain ⟨hrest, hall⟩ := ih (n / 16) (by omega)
      obtain ⟨hvalue, hhex⟩ := hex_digit (Nat.mod_lt n (by decide : 16 > 0))
      have hbytes : bytes (Nat.toDigits 16 (n / 16) ++ [Nat.digitChar (n % 16)]) =
          bytes (Nat.toDigits 16 (n / 16)) ++ [(Nat.digitChar (n % 16)).toUInt8] := by simp [bytes]
      rw [hbytes]
      constructor
      · rw [utf16_unit_append _ _ (by rw [hvalue]; omega), hrest, hvalue]
        omega
      · exact List.forall_mem_append.mpr ⟨hall, List.forall_mem_singleton.mpr hhex⟩

theorem utf16_unit_zeros (k : ℕ) (digits : Bytes) : utf16_unit (List.replicate k 0x30 ++ digits) = utf16_unit digits := by
  have hzero : (List.replicate k (0x30 : UInt8)).foldl (fun uc p => (uc <<< 4) ||| hex_value p) 0 = 0 := by
    induction k with
    | zero => rfl
    | succ k ih => rw [List.replicate_succ, List.foldl_cons]; exact ih
  rw [utf16_unit, List.foldl_append, hzero]
  rfl

/-- What is printed for a character that takes four digits. -/
theorem printed_unit {ch : UInt32} (hlength : (sprintf_u04x ch).length = 6) :
    ∃ u : HexUnit, sprintf_u04x ch = backslash :: 0x75 :: u.digits ∧ u.value = ch.toNat ∧ ch.toNat < 0x10000 := by
  obtain ⟨hvalue, hhex⟩ := toDigits_hex ch.toNat
  have hfour : (List.replicate (4 - (bytes (Nat.toDigits 16 ch.toNat)).length) 0x30 ++ bytes (Nat.toDigits 16 ch.toNat)).length = 4 := by
    simpa [sprintf_u04x] using hlength
  have hzeros : ∀ k, ∀ b ∈ List.replicate k (0x30 : UInt8), is_hex b = true := by
    intro k b hb
    rw [List.eq_of_mem_replicate hb]
    decide
  let u : HexUnit := ⟨_, hfour, List.forall_mem_append.mpr ⟨hzeros _, hhex⟩⟩
  have hu : u.value = ch.toNat := (utf16_unit_zeros _ _).trans hvalue
  refine ⟨u, rfl, hu, ?_⟩
  have hdigits : (Nat.toDigits 16 ch.toNat).length ≤ 4 := by
    simp only [List.length_append, List.length_replicate, bytes, List.length_map] at hfour
    omega
  exact (Nat.length_toDigits_le_iff (by decide) (by decide)).mp hdigits

/-! Characters -/

/-- The characters that are replaced when they are read. -/
theorem replaced_iff (c : UInt32) :
    (c.toInt32 < 0x80 ∨ c &&& 0xFFFFF800 = 0xD800 ∨ c &&& 0xFFFFFFFE = 0xFFFE) ↔
      (c.toNat < 0x80 ∨ 2 ^ 31 ≤ c.toNat) ∨ c.toNat / 2048 = 27 ∨ c.toNat / 2 = 0x7FFF := by
  have hlt : c.toNat < 2 ^ 32 := c.toNat_lt
  refine or_congr ?_ (or_congr ?_ ?_)
  · have hint : c.toInt32.toInt = (c.toNat : Int).bmod (2 ^ 32) := BitVec.toInt_eq_toNat_bmod c.toBitVec
    rw [Int32.lt_iff_toInt_lt, hint, show (0x80 : Int32).toInt = 128 from rfl, Int.bmod_def]
    omega
  · rw [← UInt32.toNat_inj, UInt32.toNat_and]
    have hand := @and_high_bits c.toNat 21 11 hlt
    rw [show (0xFFFFF800 : UInt32).toNat = (2 ^ 21 - 1) <<< 11 from rfl, hand, show (0xD800 : UInt32).toNat = 27 * 2 ^ 11 from rfl]
    omega
  · rw [← UInt32.toNat_inj, UInt32.toNat_and]
    have hand := @and_high_bits c.toNat 31 1 hlt
    rw [show (0xFFFFFFFE : UInt32).toNat = (2 ^ 31 - 1) <<< 1 from rfl, hand, show (0xFFFE : UInt32).toNat = 0x7FFF * 2 ^ 1 from rfl]
    omega

/-- A character of more than one byte is neither a byte nor half of a pair, nor one of the two that are none. -/
theorem utf8Read_spec {b : UInt8} {rest : Bytes} (hb : 0xC0 ≤ b) :
    0x80 ≤ (cson_utf8Read b rest).1.toNat ∧ (cson_utf8Read b rest).1.toNat / 2048 ≠ 27 ∧
      (cson_utf8Read b rest).1.toNat / 2 ≠ 0x7FFF ∧ (cson_utf8Read b rest).2 = (rest.takeWhile is_trail).length + 1 := by
  simp only [cson_utf8Read, if_pos hb, and_true]
  generalize utf8_value b (rest.takeWhile is_trail) = c
  split
  · decide
  · next hvalid =>
    rw [replaced_iff] at hvalid
    simp only [not_or, Nat.not_lt] at hvalid
    exact ⟨hvalid.1.1, hvalid.2.1, hvalid.2.2⟩

/-! Strings -/

/-- What the loop that prints a string leads to when the text is read back: a byte that is a character stays, and
the bytes of a longer character become those of the character. -/
def read_back : (fuel : ℕ) → Bytes → Bytes
  | _, [] => []
  | 0, _ => []
  | fuel + 1, b :: rest =>
    let (ch, length) := cson_utf8Read b rest
    if ch = 0 then []
    else if length % 256 = 1 then b :: read_back fuel rest
    else utf8 ch.toNat ++ read_back fuel (rest.drop (length % 256 - 1))

/-- The bytes that can be printed as they are or as an escape sequence, but for zero, which ends a string. -/
def printable (b : UInt8) : Bool := is_plain b || escapes.any fun e => e.2 = b

/-- There is no byte in the string, up to the first zero, that has no representation. -/
def Quotable (s : Bytes) : Prop := ∀ b ∈ s.takeWhile (· ≠ 0), printable b = true

/-- What is printed for one byte. -/
theorem print_byte_spec (esc : Bool) (b : UInt8) :
    if printable b then ∀ text s, Chars text s → Chars (print_byte esc b ++ text) (b :: s)
    else char_class b = none ∧ b ∈ print_byte esc b := by
  have h := @forall_byte (fun b =>
    if printable b then (escape_of esc b).elim (is_plain b) fun e => escapes.contains (e, b)
    else char_class b = none && escape_of esc b = none) (by cases esc <;> decide +kernel) b
  split at h
  · next hprintable =>
    rw [if_pos hprintable]
    intro text s hchars
    cases hescape : escape_of esc b with
    | none =>
      rw [hescape] at h
      simp only [print_byte, hescape]
      exact .plain h hchars
    | some e =>
      rw [hescape] at h
      simp only [print_byte, hescape]
      exact .escape (List.contains_iff_mem.mp h) hchars
  · next hprintable =>
    rw [if_neg hprintable]
    simp only [Bool.and_eq_true, decide_eq_true_eq] at h
    exact ⟨h.1, by simp [print_byte, h.2]⟩

theorem is_high_iff {n : ℕ} (hn : n < 0x10000) : IS_HIGH_SURROGATE n = true ↔ n / 1024 = 54 := by
  have hand : n &&& 0xFC00 = n / 1024 * 1024 := @and_high_bits n 6 10 hn
  rw [IS_HIGH_SURROGATE, hand, decide_eq_true_eq]
  omega

theorem is_low_iff {n : ℕ} (hn : n < 0x10000) : IS_LOW_SURROGATE n = true ↔ n / 1024 = 55 := by
  have hand : n &&& 0xFC00 = n / 1024 * 1024 := @and_high_bits n 6 10 hn
  rw [IS_LOW_SURROGATE, hand, decide_eq_true_eq]
  omega

/-- What is printed for a longer character. -/
theorem print_unit_spec {b : UInt8} {rest : Bytes} (hb : 0xC0 ≤ b)
    (hlength : (sprintf_u04x (cson_utf8Read b rest).1).length = 6) {text s : Bytes} (hchars : Chars text s) :
    Chars (sprintf_u04x (cson_utf8Read b rest).1 ++ text) (utf8 (cson_utf8Read b rest).1.toNat ++ s) := by
  obtain ⟨u, hprinted, hvalue, hlt⟩ := printed_unit hlength
  obtain ⟨hge, hsurrogate, hchar, -⟩ := @utf8Read_spec b rest hb
  rw [hprinted, ← hvalue]
  rw [← hvalue] at hge hsurrogate hchar hlt
  have hhigh : IS_HIGH_SURROGATE u.value = false := by
    rw [← Bool.not_eq_true, is_high_iff hlt]
    omega
  have hlow : IS_LOW_SURROGATE u.value = false := by
    rw [← Bool.not_eq_true, is_low_iff hlt]
    omega
  have hunit := @Chars.unit u text s hhigh hlow (by constructor <;> omega) hchars
  simpa using hunit

theorem quotable_cons {b : UInt8} {rest : Bytes} (hb : b ≠ 0) : Quotable (b :: rest) ↔ printable b = true ∧ Quotable rest := by
  rw [Quotable, List.takeWhile_cons, if_pos (by simpa using hb), List.forall_mem_cons]
  rfl

/-- Bytes of longer characters can be printed. -/
theorem printable_of_high {b : UInt8} (hb : 0x80 ≤ b) : b ≠ 0 ∧ printable b = true := by
  have h := @forall_byte (fun b => !(0x80 ≤ b) || (b ≠ 0 && printable b)) (by decide +kernel) b
  simpa [hb] using h

theorem high_of_trail {b : UInt8} (hb : is_trail b = true) : 0x80 ≤ b := by
  have h := @forall_byte (fun b => !is_trail b || 0x80 ≤ b) (by decide +kernel) b
  simpa [hb] using h

theorem quotable_append {trail rest : Bytes} (htrail : ∀ b ∈ trail, is_trail b = true) : Quotable (trail ++ rest) ↔ Quotable rest := by
  induction trail with
  | nil => rfl
  | cons b trail ih =>
    obtain ⟨hb, hall⟩ := List.forall_mem_cons.mp htrail
    obtain ⟨hne, hprintable⟩ := printable_of_high (high_of_trail hb)
    rw [List.cons_append, quotable_cons hne, ih hall, and_iff_right hprintable]

/-- The bytes of the rest of a character are taken off. -/
theorem quotable_drop {k : ℕ} {rest : Bytes} (hk : k ≤ (rest.takeWhile is_trail).length) : Quotable rest ↔ Quotable (rest.drop k) := by
  have htake : ∀ b ∈ rest.take k, is_trail b = true := by
    intro b hb
    obtain ⟨trail, hrest⟩ := List.takeWhile_prefix is_trail (l := rest)
    rw [← hrest, List.take_append_of_le_length hk] at hb
    exact List.mem_takeWhile_imp (List.mem_of_mem_take hb)
  have h := @quotable_append (rest.take k) (rest.drop k) htake
  rwa [List.take_append_drop] at h

theorem utf8Read_of_low {b : UInt8} {rest : Bytes} (hb : ¬ 0xC0 ≤ b) : cson_utf8Read b rest = (b.toUInt32, 1) := if_neg hb

/-- A string that is printed is read back, unless there is a byte in it that cannot be read. -/
theorem print_chars_spec {esc : Bool} {fuel : ℕ} {s text : Bytes} (hprint : print_chars esc fuel s = .ok text)
    (hfuel : s.length ≤ fuel) :
    (Quotable s → Chars text (read_back fuel s)) ∧ (¬ Quotable s → ∃ b ∈ text, char_class b = none) := by
  induction fuel generalizing s text with
  | zero =>
    obtain rfl : s = [] := List.length_eq_zero_iff.mp (Nat.le_zero.mp hfuel)
    obtain rfl := Except.ok.inj hprint
    exact ⟨fun _ => .nil, fun hnot => (hnot (by simp [Quotable])).elim⟩
  | succ fuel ih =>
    cases s with
    | nil =>
      obtain rfl := Except.ok.inj hprint
      exact ⟨fun _ => .nil, fun hnot => (hnot (by simp [Quotable])).elim⟩
    | cons b rest =>
      have hshort : rest.length ≤ fuel := Nat.le_of_succ_le_succ hfuel
      generalize hread : cson_utf8Read b rest = read at hprint
      obtain ⟨ch, length⟩ := read
      simp only [print_chars, hread] at hprint
      simp only [read_back, hread]
      split at hprint
      · next hzero =>
        obtain rfl := Except.ok.inj hprint
        have hb : b = 0 := by
          by_cases hlead : 0xC0 ≤ b
          · have hge := (@utf8Read_spec b rest hlead).1
            rw [hread] at hge
            exact absurd (hzero ▸ hge : 0x80 ≤ (0 : UInt32).toNat) (by decide)
          · rw [utf8Read_of_low hlead] at hread
            have hch := (Prod.mk.inj hread).1
            rw [hzero] at hch
            exact UInt8.toNat_inj.mp (by simpa using congrArg UInt32.toNat hch)
        rw [if_pos hzero]
        exact ⟨fun _ => .nil, fun hnot => (hnot (by simp [Quotable, hb])).elim⟩
      · next hch =>
        rw [if_neg hch]
        obtain ⟨_, hassert, hprint⟩ := bind_ok hprint
        have hlength : length % 256 ≠ 0 := of_decide_eq_true (of_assert hassert)
        split at hprint
        · next hone =>
          obtain ⟨_, hassert, hprint⟩ := bind_ok hprint
          obtain ⟨tail, htail, hprint⟩ := bind_ok hprint
          obtain rfl := Except.ok.inj hprint
          have hb : b ≠ 0 := by
            rintro rfl
            have hzero : (0 : UInt8).toUInt32 = ch := of_decide_eq_true (of_assert hassert)
            exact hch hzero.symm
          obtain ⟨hread, hreject⟩ := ih htail hshort
          have hbyte := print_byte_spec esc b
          rw [if_pos hone, quotable_cons hb]
          split at hbyte
          · next hprintable =>
            rw [and_iff_right hprintable]
            refine ⟨fun hrest => hbyte _ _ (hread hrest), fun hnot => ?_⟩
            obtain ⟨x, hx, hclass⟩ := hreject hnot
            exact ⟨x, List.mem_append_right _ hx, hclass⟩
          · next hprintable =>
            refine ⟨fun hand => absurd hand.1 hprintable, fun _ => ?_⟩
            exact ⟨b, List.mem_append_left _ hbyte.2, hbyte.1⟩
        · next hone =>
          split at hprint
          · cases hprint
          split at hprint
          · cases hprint
          · next hsix =>
            obtain ⟨tail, htail, hprint⟩ := bind_ok hprint
            obtain rfl := Except.ok.inj hprint
            have hlead : 0xC0 ≤ b := by
              by_contra hlow
              rw [utf8Read_of_low hlow] at hread
              rw [← (Prod.mk.inj hread).2] at hone
              exact hone rfl
            obtain ⟨-, -, -, htrail⟩ := @utf8Read_spec b rest hlead
            have hlength' : length = (rest.takeWhile is_trail).length + 1 := by rw [← htrail, hread]
            have hdrop : length % 256 - 1 ≤ (rest.takeWhile is_trail).length := by
              have := Nat.mod_le length 256
              omega
            obtain ⟨hne, hprintable⟩ := printable_of_high (UInt8.le_trans (by decide) hlead)
            obtain ⟨hback, hreject⟩ := ih htail (by rw [List.length_drop]; omega)
            have hsix' : (sprintf_u04x (cson_utf8Read b rest).1).length = 6 := by rw [hread]; exact not_not.mp hsix
            rw [if_neg hone, quotable_cons hne, and_iff_right hprintable, quotable_drop hdrop]
            refine ⟨fun hrest => ?_, fun hnot => ?_⟩
            · have hunit := print_unit_spec hlead hsix' (hback hrest)
              rwa [hread] at hunit
            · obtain ⟨x, hx, hclass⟩ := hreject hnot
              exact ⟨x, List.mem_append_right _ hx, hclass⟩

end cson
