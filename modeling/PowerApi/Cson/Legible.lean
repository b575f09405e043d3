import PowerApi.Cson.RoundTrip

namespace cson

/-! Characters that are printed and read as they are -/

/-- An ASCII character that has a representation, or a character up to U+FFFF that is neither half of a pair nor
one of the two that are none. -/
def Legible (uc : ℕ) : Prop :=
  0 < uc ∧ uc < 0x10000 ∧ (uc < 0x80 → printable (UInt8.ofNat uc) = true) ∧ uc / 2048 ≠ 27 ∧ uc / 2 ≠ 0x7FFF

/-- The bytes of a character after its first, and what they add to it. -/
theorem trail_byte {k : ℕ} (hk : k < 64) : is_trail (UInt8.ofNat (k ||| 0x80)) = true ∧
    0x3F &&& (UInt8.ofNat (k ||| 0x80)).toUInt32 = UInt32.ofNat k := by
  have hall : ∀ k ∈ List.range 64, is_trail (UInt8.ofNat (k ||| 0x80)) = true ∧
      0x3F &&& (UInt8.ofNat (k ||| 0x80)).toUInt32 = UInt32.ofNat k := by decide +kernel
  exact hall k (List.mem_range.mpr hk)

/-- The first byte of a character of two bytes. -/
theorem lead_two {k : ℕ} (hk : k < 32) : 0xC0 ≤ UInt8.ofNat (k ||| 0xC0) ∧
    cson_utfTrans1.getD ((UInt8.ofNat (k ||| 0xC0)).toNat - 0xC0) 0 = UInt32.ofNat k := by
  have hall : ∀ k ∈ List.range 32, 0xC0 ≤ UInt8.ofNat (k ||| 0xC0) ∧
      cson_utfTrans1.getD ((UInt8.ofNat (k ||| 0xC0)).toNat - 0xC0) 0 = UInt32.ofNat k := by decide +kernel
  exact hall k (List.mem_range.mpr hk)

/-- The first byte of a character of three bytes. -/
theorem lead_three {k : ℕ} (hk : k < 16) : 0xC0 ≤ UInt8.ofNat (k ||| 0xE0) ∧
    cson_utfTrans1.getD ((UInt8.ofNat (k ||| 0xE0)).toNat - 0xC0) 0 = UInt32.ofNat k := by
  have hall : ∀ k ∈ List.range 16, 0xC0 ≤ UInt8.ofNat (k ||| 0xE0) ∧
      cson_utfTrans1.getD ((UInt8.ofNat (k ||| 0xE0)).toNat - 0xC0) 0 = UInt32.ofNat k := by decide +kernel
  exact hall k (List.mem_range.mpr hk)

theorem shift_add (k m : ℕ) : (UInt32.ofNat k <<< 6) + UInt32.ofNat m = UInt32.ofNat (k * 64 + m) := by
  apply UInt32.toNat_inj.mp
  rw [UInt32.toNat_add, UInt32.toNat_shiftLeft, UInt32.toNat_ofNat', UInt32.toNat_ofNat', UInt32.toNat_ofNat', Nat.shiftLeft_eq,
    show (6 : UInt32).toNat % 32 = 6 from rfl]
  omega

theorem low_bits (n : ℕ) : n &&& 0x3F = n % 64 := Nat.and_two_pow_sub_one_eq_mod n 6

/-- The first byte of a character and the bytes after it, where there are any. -/
theorem utf8_long {uc : ℕ} (hge : 0x80 ≤ uc) (hlt : uc < 0x10000) :
    ∃ b trail, utf8 uc = b :: trail ∧ 0xC0 ≤ b ∧ (∀ x ∈ trail, is_trail x = true) ∧ trail ≠ [] ∧ trail.length ≤ 2 ∧
      utf8_value b trail = UInt32.ofNat uc := by
  by_cases htwo : uc < 0x800
  · have hlead := @lead_two (uc / 64) (by omega)
    have htrail := @trail_byte (uc % 64) (by omega)
    refine ⟨UInt8.ofNat (uc / 64 ||| 0xC0), [UInt8.ofNat (uc % 64 ||| 0x80)], ?_, hlead.1, ?_, by simp, by simp, ?_⟩
    · rw [utf8, if_neg (by omega), if_pos htwo]
      show [UInt8.ofNat (uc >>> 6 ||| 0xC0), UInt8.ofNat (uc >>> 0 &&& 0x3F ||| 0x80)] = _
      rw [low_bits, Nat.shiftRight_eq_div_pow, Nat.shiftRight_zero]
    · exact List.forall_mem_singleton.mpr htrail.1
    · rw [utf8_value, hlead.2]
      simp only [List.foldl_cons, List.foldl_nil, htrail.2]
      rw [shift_add]
      congr 1
      omega
  · have hlead := @lead_three (uc / 4096) (by omega)
    have hmid := @trail_byte (uc / 64 % 64) (by omega)
    have htrail := @trail_byte (uc % 64) (by omega)
    refine ⟨UInt8.ofNat (uc / 4096 ||| 0xE0), [UInt8.ofNat (uc / 64 % 64 ||| 0x80), UInt8.ofNat (uc % 64 ||| 0x80)], ?_, hlead.1,
      ?_, by simp, by simp, ?_⟩
    · rw [utf8, if_neg (by omega), if_neg htwo, if_pos hlt]
      show [UInt8.ofNat (uc >>> 12 ||| 0xE0), UInt8.ofNat (uc >>> 6 &&& 0x3F ||| 0x80), UInt8.ofNat (uc >>> 0 &&& 0x3F ||| 0x80)] = _
      rw [low_bits, low_bits, Nat.shiftRight_eq_div_pow, Nat.shiftRight_eq_div_pow, Nat.shiftRight_zero]
    · exact List.forall_mem_cons.mpr ⟨hmid.1, List.forall_mem_singleton.mpr htrail.1⟩
    · rw [utf8_value, hlead.2]
      simp only [List.foldl_cons, List.foldl_nil, htrail.2, hmid.2]
      rw [shift_add, shift_add]
      congr 1
      omega

theorem utf8_short {uc : ℕ} (hlt : uc < 0x80) : utf8 uc = [UInt8.ofNat uc] := by
  rw [utf8, if_pos hlt]
  simp [utf8_bytes, utf8_lead_bits]

/-- A character is read as it is, where no byte follows that goes on with it. -/
theorem utf8Read_long {uc : ℕ} (hlegible : Legible uc) (hge : 0x80 ≤ uc) {rest : Bytes} (hrest : rest.takeWhile is_trail = []) :
    ∃ b trail, utf8 uc = b :: trail ∧ trail ≠ [] ∧ trail.length ≤ 2 ∧
      cson_utf8Read b (trail ++ rest) = (UInt32.ofNat uc, trail.length + 1) := by
  obtain ⟨-, hlt, -, hsurrogate, hchar⟩ := hlegible
  obtain ⟨b, trail, hutf8, hlead, htrail, hne, hlength, hvalue⟩ := utf8_long hge hlt
  refine ⟨b, trail, hutf8, hne, hlength, ?_⟩
  have htake : (trail ++ rest).takeWhile is_trail = trail := by
    rw [List.takeWhile_append_of_pos htrail, hrest, List.append_nil]
  have hnat : (UInt32.ofNat uc).toNat = uc := UInt32.toNat_ofNat_of_lt' (Nat.lt_trans hlt (by decide))
  simp only [cson_utf8Read, if_pos hlead, htake, hvalue]
  rw [if_neg]
  rw [replaced_iff, hnat]
  omega

theorem length_sprintf_u04x {ch : UInt32} (hlt : ch.toNat < 0x10000) : (sprintf_u04x ch).length = 6 := by
  have hlength : (Nat.toDigits 16 ch.toNat).length ≤ 4 := (Nat.length_toDigits_le_iff (by decide) (by decide)).mpr hlt
  simp only [sprintf_u04x, bytes, List.length_cons, List.length_append, List.length_replicate, List.length_map]
  omega

/-! Strings of such characters -/

/-- The string consists of characters that are printed and read as they are. -/
def IsText (s : Bytes) : Prop := ∃ ucs : List ℕ, (∀ uc ∈ ucs, Legible uc) ∧ s = ucs.flatMap utf8

theorem text_not_trail {ucs : List ℕ} (hall : ∀ uc ∈ ucs, Legible uc) : (ucs.flatMap utf8).takeWhile is_trail = [] := by
  cases ucs with
  | nil => rfl
  | cons uc ucs =>
    obtain ⟨hlegible, -⟩ := List.forall_mem_cons.mp hall
    rw [List.flatMap_cons]
    by_cases hge : 0x80 ≤ uc
    · obtain ⟨b, trail, hutf8, hlead, -⟩ := utf8_long hge hlegible.2.1
      have hnot := @forall_byte (fun b => !(0xC0 ≤ b) || !is_trail b) (by decide +kernel) b
      rw [hutf8, List.cons_append, List.takeWhile_cons_of_neg (by simpa [hlead] using hnot)]
    · have hnot := @forall_byte (fun b => !(b < 0x80) || !is_trail b) (by decide +kernel) (UInt8.ofNat uc)
      have hlt : UInt8.ofNat uc < 0x80 := by
        rw [UInt8.lt_iff_toNat_lt, UInt8.toNat_ofNat_of_lt' (by omega : uc < 256)]
        exact Nat.lt_of_not_le hge
      rw [utf8_short (Nat.lt_of_not_le hge), List.singleton_append, List.takeWhile_cons_of_neg (by simpa [hlt] using hnot)]

/-- A text is printed, and what is read is the text. -/
theorem print_chars_text {esc : Bool} {ucs : List ℕ} (hall : ∀ uc ∈ ucs, Legible uc) {fuel : ℕ}
    (hfuel : (ucs.flatMap utf8).length ≤ fuel) :
    (∃ text, print_chars esc fuel (ucs.flatMap utf8) = .ok text) ∧ read_back fuel (ucs.flatMap utf8) = ucs.flatMap utf8 := by
  induction ucs generalizing fuel with
  | nil => exact ⟨⟨[], by cases fuel <;> rfl⟩, by cases fuel <;> rfl⟩
  | cons uc ucs ih =>
    obtain ⟨hlegible, hall⟩ := List.forall_mem_cons.mp hall
    have hnat : (UInt32.ofNat uc).toNat = uc := UInt32.toNat_ofNat_of_lt' (Nat.lt_trans hlegible.2.1 (by decide))
    have hne : UInt32.ofNat uc ≠ 0 := by
      intro hzero
      rw [hzero] at hnat
      exact absurd hlegible.1 (by rw [← hnat]; decide)
    rw [List.flatMap_cons] at hfuel ⊢
    by_cases hge : 0x80 ≤ uc
    · obtain ⟨b, trail, hutf8, htrail, hlength, hread⟩ := utf8Read_long hlegible hge (text_not_trail hall)
      rw [hutf8, List.cons_append] at hfuel ⊢
      rw [List.length_cons, List.length_append] at hfuel
      obtain ⟨fuel, rfl⟩ := Nat.exists_eq_add_of_le' (Nat.lt_of_lt_of_le (Nat.succ_pos _) hfuel)
      obtain ⟨⟨text, htext⟩, hback⟩ := @ih hall fuel (by omega)
      have hpos : trail.length ≠ 0 := by simpa using htrail
      have hmod : (trail.length + 1) % 256 = trail.length + 1 := Nat.mod_eq_of_lt (by omega)
      have hsix := length_sprintf_u04x (hnat.symm ▸ hlegible.2.1)
      constructor
      · refine ⟨sprintf_u04x (UInt32.ofNat uc) ++ text, ?_⟩
        simp only [print_chars, hread, hne, if_false, hmod, Nat.add_sub_cancel, List.drop_left, htext, hsix]
        simp [assert, htrail, UBLen]
        rfl
      · simp only [read_back, hread, hne, if_false, hmod, Nat.add_sub_cancel, List.drop_left, hback, hnat, hutf8]
        rw [if_neg (by omega), List.cons_append]
    · have hlow : ¬ 0xC0 ≤ UInt8.ofNat uc := by
        rw [UInt8.le_iff_toNat_le, UInt8.toNat_ofNat_of_lt' (by omega : uc < 256)]
        show ¬ 192 ≤ uc
        omega
      have hchar : (UInt8.ofNat uc).toUInt32 = UInt32.ofNat uc := by
        apply UInt32.toNat_inj.mp
        rw [UInt8.toNat_toUInt32, UInt8.toNat_ofNat_of_lt' (by omega : uc < 256), hnat]
      rw [utf8_short (Nat.lt_of_not_le hge), List.singleton_append] at hfuel ⊢
      obtain ⟨fuel, rfl⟩ := Nat.exists_eq_add_of_le' (Nat.lt_of_lt_of_le (Nat.succ_pos _) hfuel)
      obtain ⟨⟨text, htext⟩, hback⟩ := @ih hall fuel (Nat.le_of_succ_le_succ hfuel)
      constructor
      · refine ⟨print_byte esc (UInt8.ofNat uc) ++ text, ?_⟩
        simp only [print_chars, utf8Read_of_low hlow, hchar, hne, if_false, htext]
        rfl
      · simp only [read_back, utf8Read_of_low hlow, hchar, hne, if_false, hback]
        rfl

theorem IsText.quotable {s : Bytes} (h : IsText s) : Quotable s := by
  obtain ⟨ucs, hall, rfl⟩ := h
  suffices hprintable : ∀ b ∈ ucs.flatMap utf8, printable b = true from
    fun b hb => hprintable b (List.takeWhile_subset _ hb)
  intro b hb
  obtain ⟨uc, huc, hb⟩ := List.mem_flatMap.mp hb
  obtain ⟨-, hlt, hprintable, -⟩ := hall uc huc
  by_cases hge : 0x80 ≤ uc
  · obtain ⟨lead, trail, hutf8, hlead, htrail, -⟩ := utf8_long hge hlt
    rw [hutf8] at hb
    rcases List.mem_cons.mp hb with rfl | hb
    · exact (printable_of_high (UInt8.le_trans (by decide) hlead)).2
    · exact (printable_of_high (high_of_trail (htrail b hb))).2
  · rw [utf8_short (Nat.lt_of_not_le hge)] at hb
    rw [List.mem_singleton.mp hb]
    exact hprintable (Nat.lt_of_not_le hge)

/-- A text does not begin with a zero byte. -/
theorem IsText.head_ne_zero {s : Bytes} (h : IsText s) : s.head? ≠ some 0 := by
  obtain ⟨ucs, hall, rfl⟩ := h
  cases ucs with
  | nil => simp
  | cons uc ucs =>
    obtain ⟨⟨hpos, hlt, -⟩, -⟩ := List.forall_mem_cons.mp hall
    rw [List.flatMap_cons]
    by_cases hge : 0x80 ≤ uc
    · obtain ⟨b, trail, hutf8, hlead, -⟩ := utf8_long hge hlt
      rw [hutf8]
      rintro heq
      obtain rfl := Option.some.inj heq
      exact absurd hlead (by decide)
    · rw [utf8_short (Nat.lt_of_not_le hge)]
      intro heq
      have hzero := congrArg UInt8.toNat (Option.some.inj heq)
      rw [UInt8.toNat_ofNat_of_lt' (by omega : uc < 256)] at hzero
      exact absurd hzero (Nat.ne_of_gt hpos)

theorem str_to_json_text {esc : Bool} {s : Bytes} (h : IsText s) : (∃ text, cson_str_to_json esc s = .ok text) ∧ reread s = s := by
  have hhead := h.head_ne_zero
  obtain ⟨ucs, hall, rfl⟩ := h
  obtain ⟨⟨text, htext⟩, hback⟩ := @print_chars_text esc ucs hall _ (Nat.le_refl _)
  generalize ucs.flatMap utf8 = s at *
  by_cases hempty : s.head?.getD 0 = 0
  · obtain rfl : s = [] := by
      cases s with
      | nil => rfl
      | cons b s => exact absurd (congrArg some hempty) hhead
    exact ⟨⟨_, rfl⟩, rfl⟩
  · refine ⟨⟨0x22 :: (text ++ [0x22]), ?_⟩, ?_⟩
    · rw [cson_str_to_json, if_neg hempty, htext]
      rfl
    · rw [reread, if_neg hempty, hback, cson_new_string, if_neg hhead]

/-! Values that are printed and read as they are -/

section Clean

variable {D : Type} (lib : Doubles D)

mutual

/-- The strings of the value are texts, and what `sprintf` makes of its floating point numbers is short enough for
the buffer and has all their digits. -/
def Value.Clean : Value Bytes D → Prop
  | .double d => lib.Fixed d ∧ (lib.sprintf d).length < BufLen ∧ lib.number (stripped (lib.sprintf d)) = d
  | .string s => IsText s
  | .array list => clean_list list
  | .object kvp => clean_members kvp
  | _ => True

def clean_list : List (Value Bytes D) → Prop
  | [] => True
  | v :: list => v.Clean ∧ clean_list list

def clean_members : List (Bytes × Value Bytes D) → Prop
  | [] => True
  | (k, v) :: kvp => IsText k ∧ v.Clean ∧ clean_members kvp

end

variable {lib} {fmt : OutputOpt}

mutual

theorem Value.Clean.reread : {v : Value Bytes D} → v.Clean lib → v.Finite lib ∧ v.Quotable ∧ v.reread lib = v
  | .null, _ => ⟨trivial, trivial, rfl⟩
  | .bool _, _ => ⟨trivial, trivial, rfl⟩
  | .integer _, _ => ⟨trivial, trivial, rfl⟩
  | .double _, ⟨hfixed, _, hnumber⟩ => ⟨hfixed, trivial, congrArg Value.double hnumber⟩
  | .string _, htext => ⟨trivial, htext.quotable, congrArg Value.string (@str_to_json_text false _ htext).2⟩
  | .array list, hlist =>
    have h := clean_list_reread list hlist
    ⟨h.1, h.2.1, congrArg Value.array h.2.2⟩
  | .object kvp, hkvp =>
    have h := clean_members_reread kvp hkvp
    ⟨h.1, h.2.1, congrArg Value.object h.2.2⟩

theorem clean_list_reread : (list : List (Value Bytes D)) → clean_list lib list →
    finite_list lib list ∧ quotable_list list ∧ reread_list lib list = list
  | [], _ => ⟨trivial, trivial, rfl⟩
  | _ :: list, ⟨hv, hlist⟩ =>
    have h := hv.reread
    have h' := clean_list_reread list hlist
    ⟨⟨h.1, h'.1⟩, ⟨h.2.1, h'.2.1⟩, by rw [reread_list, h.2.2, h'.2.2]⟩

theorem clean_members_reread : (kvp : List (Bytes × Value Bytes D)) → clean_members lib kvp →
    finite_members lib kvp ∧ quotable_members kvp ∧ reread_members lib kvp = kvp
  | [], _ => ⟨trivial, trivial, rfl⟩
  | _ :: kvp, ⟨hk, hv, hkvp⟩ =>
    have h := hv.reread
    have h' := clean_members_reread kvp hkvp
    ⟨⟨h.1, h'.1⟩, ⟨hk.quotable, h.2.1, h'.2.1⟩, by rw [reread_members, (@str_to_json_text false _ hk).2, h.2.2, h'.2.2]⟩

end

theorem separated_ok {separator : Bytes} {items : List (Except Stop Bytes)} :
    (∃ text, separated separator items = .ok text) ↔ ∀ item ∈ items, ∃ text, item = .ok text := by
  induction items with
  | nil => exact iff_of_true ⟨[], rfl⟩ (by simp)
  | cons item items ih =>
    rw [List.forall_mem_cons, ← ih]
    cases items with
    | nil => exact ⟨fun h => ⟨h, [], rfl⟩, fun h => h.1⟩
    | cons item' items =>
      constructor
      · rintro ⟨text, htext⟩
        obtain ⟨a, ha, htext⟩ := bind_ok htext
        obtain ⟨b, hb, -⟩ := bind_ok htext
        exact ⟨⟨a, ha⟩, b, hb⟩
      · rintro ⟨⟨a, rfl⟩, b, hb⟩
        exact ⟨_, by rw [separated.eq_3 _ _ _ (List.cons_ne_nil _ _), hb]; rfl⟩

/-- A container is printed if its items are and if it is not nested too deep. -/
theorem container_ok {level : ℕ} {first last : UInt8} {items : List (Except Stop Bytes)} :
    (∃ text, cson_output_container fmt level first last items = .ok text) ↔
      level ≤ fmt.maxDepth.toNat ∧ ∀ item ∈ items, ∃ text, item = .ok text := by
  by_cases hlevel : level ≤ fmt.maxDepth.toNat
  · rw [and_iff_right hlevel]
    by_cases hempty : items.isEmpty
    · rw [List.isEmpty_iff.mp hempty]
      refine iff_of_true ⟨[first, last], ?_⟩ (by simp)
      rw [cson_output_container, if_neg (Nat.not_lt.mpr hlevel)]
      rfl
    · simp only [cson_output_container, if_neg (Nat.not_lt.mpr hlevel), hempty]
      rw [← separated_ok]
      constructor
      · rintro ⟨text, htext⟩
        obtain ⟨body, hbody, -⟩ := bind_ok htext
        exact ⟨body, hbody⟩
      · rintro ⟨body, hbody⟩
        exact ⟨_, by rw [hbody]; rfl⟩
  · rw [container_too_deep (Nat.lt_of_not_le hlevel)]
    exact iff_of_false (by rintro ⟨text, htext⟩; cases htext) fun h => hlevel h.1

mutual

/-- A clean value is printed exactly if it is not nested too deep. -/
theorem Value.Clean.output : {v : Value Bytes D} → v.Clean lib → {level : ℕ} →
    ((∃ text, v.output fmt lib level = .ok text) ↔ v.nesting = 0 ∨ level + v.nesting ≤ fmt.maxDepth.toNat + 1)
  | .null, _, _ => iff_of_true ⟨_, rfl⟩ (.inl rfl)
  | .bool _, _, _ => iff_of_true ⟨_, rfl⟩ (.inl rfl)
  | .integer _, _, _ => iff_of_true ⟨_, rfl⟩ (.inl rfl)
  | .double d, ⟨⟨sign, int, ds, hprint, _, _, _, _⟩, hlength, _⟩, _ => by
    refine iff_of_true ⟨stripped (lib.sprintf d), ?_⟩ (.inl rfl)
    have hne : lib.sprintf d ≠ [] := by simp [hprint]
    rw [Value.output, cson_output_double, if_neg (by omega), if_neg hne]
    rfl
  | .string _, htext, _ => iff_of_true (str_to_json_text htext).1 (.inl rfl)
  | .array list, hlist, level => by
    rw [Value.output, container_ok, clean_list_output list hlist, Value.nesting]
    omega
  | .object kvp, hkvp, level => by
    rw [Value.output, container_ok, clean_members_output kvp hkvp, Value.nesting]
    omega

theorem clean_list_output : (list : List (Value Bytes D)) → clean_list lib list → {level : ℕ} →
    ((∀ item ∈ output_list fmt lib level list, ∃ text, item = .ok text) ↔
      nesting_list list = 0 ∨ level + nesting_list list ≤ fmt.maxDepth.toNat + 1)
  | [], _, _ => iff_of_true (by simp [output_list]) (.inl rfl)
  | v :: list, ⟨hv, hlist⟩, level => by
    rw [output_list, List.forall_mem_cons, hv.output, clean_list_output list hlist, nesting_list]
    omega

theorem clean_members_output : (kvp : List (Bytes × Value Bytes D)) → clean_members lib kvp → {level : ℕ} →
    ((∀ item ∈ output_members fmt lib level kvp, ∃ text, item = .ok text) ↔
      nesting_members kvp = 0 ∨ level + nesting_members kvp ≤ fmt.maxDepth.toNat + 1)
  | [], _, _ => iff_of_true (by simp [output_members]) (.inl rfl)
  | (k, v) :: kvp, ⟨hk, hv, hkvp⟩, level => by
    have hmember : (∃ text, cson_output_member fmt k (v.output fmt lib level) = .ok text) ↔ ∃ text, v.output fmt lib level = .ok text := by
      obtain ⟨key, hkey⟩ := (@str_to_json_text fmt.escapeForwardSlashes _ hk).1
      constructor
      · rintro ⟨text, htext⟩
        obtain ⟨_, _, text', _, _, htext', _⟩ := member_spec htext
        exact ⟨text', htext'⟩
      · rintro ⟨text, htext⟩
        exact ⟨_, by rw [cson_output_member, hkey, htext]; rfl⟩
    rw [output_members, List.forall_mem_cons, hmember, hv.output, clean_members_output kvp hkvp, nesting_members]
    omega

end

/-- A clean container is printed and read back, if its containers are not nested too deep. -/
theorem Value.Clean.printed_parsed {opt : ParseOpt} {v : Value Bytes D} (hclean : v.Clean lib) (fmt : OutputOpt) (hcomments : opt.allowComments = false)
    (hcontainer : v.is_container) (hdepth : v.nesting ≤ fmt.maxDepth.toNat + 1) (hnesting : v.nesting ≤ opt.nesting) :
    ∃ body heap' root, v.output fmt lib 0 = .ok body ∧
      cson_parse lib 0x2E opt (body ++ (if fmt.addNewline then [0x0A] else [])) = .value heap' root ∧
      Stored heap' heap'.length root v := by
  obtain ⟨hfinite, hquotable, hreread⟩ := hclean.reread
  obtain ⟨body, hbody⟩ := (@Value.Clean.output _ _ fmt _ hclean 0).mpr (.inr (by omega))
  have haccepts := (accepts_printed (w := v) hcomments hfinite hbody).mpr ⟨hcontainer, hnesting, hquotable, hreread.symm⟩
  obtain ⟨heap', root, hparse⟩ := (parsed_iff_accepts lib 0x2E opt _ v).mpr haccepts
  exact ⟨body, heap', root, hbody, hparse⟩

/-- A clean value is printed and read back as the same value exactly if it is a container and its containers are
nested not too deep to be printed, and not too deep to be parsed. -/
theorem cson_round_trip {opt : ParseOpt} (hcomments : opt.allowComments = false) {heap : Heap Bytes D} {src : Ref}
    {v : Value Bytes D} (hdenotes : Denotes heap src v) (hclean : v.Clean lib) :
    (∃ text heap' root, cson_output fmt lib heap src = .ok text ∧ cson_parse lib 0x2E opt text = .value heap' root ∧
      Stored heap' heap'.length root v) ↔
      v.is_container ∧ v.nesting ≤ fmt.maxDepth.toNat + 1 ∧ v.nesting ≤ opt.nesting := by
  obtain ⟨hfinite, hquotable, hreread⟩ := hclean.reread
  have hprinted := @Value.Clean.output _ _ fmt _ hclean 0
  constructor
  · rintro ⟨text, heap', root, hprint, hparse⟩
    rw [cson_output_eq hdenotes] at hprint
    obtain ⟨body, hbody, hprint⟩ := bind_ok hprint
    obtain rfl := Except.ok.inj hprint
    have haccepts := (parsed_iff_accepts lib 0x2E opt _ v).mp ⟨heap', root, hparse⟩
    obtain ⟨hcontainer, hnesting, -⟩ := (accepts_printed hcomments hfinite hbody).mp haccepts
    exact ⟨hcontainer, (hprinted.mp ⟨body, hbody⟩).elim (by omega) (by omega), hnesting⟩
  · rintro ⟨hcontainer, hdepth, hnesting⟩
    obtain ⟨body, heap', root, hbody, hparse⟩ := hclean.printed_parsed fmt hcomments hcontainer hdepth hnesting
    refine ⟨_, heap', root, ?_, hparse⟩
    rw [cson_output_eq hdenotes, hbody]
    rfl

/-- The object `{"a": [true, "é"]}`, with the address of its member before its own. -/
theorem cson_round_trip_members : ∃ text heap' root,
    cson_output cson_output_opt_empty no_doubles
      [.ARRAY [1, 2], .BOOL true, .STRING [0xC3, 0xA9], .OBJECT [([0x61], 0)]] 3 = .ok text ∧
      cson_parse no_doubles 0x2E cson_parse_opt_empty text = .value heap' root ∧
      Stored heap' heap'.length root (.object [([0x61], .array [.bool true, .string [0xC3, 0xA9]])]) := by
  have hkey : IsText [0x61] := ⟨[0x61], by simp [Legible]; decide, rfl⟩
  have hstring : IsText [0xC3, 0xA9] := ⟨[0xE9], by simp [Legible], rfl⟩
  have hdenotes : Denotes [.ARRAY [1, 2], .BOOL true, .STRING [0xC3, 0xA9], .OBJECT [([0x61], 0)]] 3
      (.object [([0x61], .array [.bool true, .string [0xC3, 0xA9]])] : Value Bytes Unit) :=
    ⟨_, rfl, rfl, ⟨_, rfl, rfl, rfl, trivial⟩, trivial⟩
  exact (@cson_round_trip Unit no_doubles cson_output_opt_empty cson_parse_opt_empty rfl _ _ _ hdenotes
    ⟨hkey, ⟨trivial, hstring, trivial⟩, trivial⟩).mpr ⟨rfl, by decide, by decide⟩

end Clean

end cson
