import PowerApi.Common.UidSet
import PowerApi.Cson.Accepts
import PowerApi.Cson.Quoting
import PowerApi.Lib.Strtoul

open pwrapi.permissions (isspace isDigit_not_isspace)

namespace cson

/-! What is read back -/

/-- The string that is read where a string has been printed. -/
def reread (s : Bytes) : Bytes := cson_new_string (if s.head?.getD 0 = 0 then [] else read_back s.length s)

/-- The text of a floating point number, without zeros at its end. -/
def stripped (text : Bytes) : Bytes := (strip_zeros text.reverse).reverse

section Reread

variable {D : Type} (lib : Doubles D)

mutual

/-- The value that is read where a value has been printed. -/
def Value.reread : Value Bytes D → Value Bytes D
  | .double d => .double (lib.number (stripped (lib.sprintf d)))
  | .string s => .string (cson.reread s)
  | .array list => .array (reread_list list)
  | .object kvp => .object (reread_members kvp)
  | v => v

def reread_list : List (Value Bytes D) → List (Value Bytes D)
  | [] => []
  | v :: list => v.reread :: reread_list list

def reread_members : List (Bytes × Value Bytes D) → List (Bytes × Value Bytes D)
  | [] => []
  | (k, v) :: kvp => (cson.reread k, v.reread) :: reread_members kvp

end

mutual

/-- No string of the value has a byte that cannot be read. -/
def Value.Quotable : Value Bytes D → Prop
  | .string s => cson.Quotable s
  | .array list => quotable_list list
  | .object kvp => quotable_members kvp
  | _ => True

def quotable_list : List (Value Bytes D) → Prop
  | [] => True
  | v :: list => v.Quotable ∧ quotable_list list

def quotable_members : List (Bytes × Value Bytes D) → Prop
  | [] => True
  | (k, v) :: kvp => cson.Quotable k ∧ v.Quotable ∧ quotable_members kvp

end

/-- What `sprintf` makes of a finite number: digits, the point and digits. -/
def Doubles.Fixed (d : D) : Prop :=
  ∃ sign int ds, lib.sprintf d = sign ++ (int ++ 0x2E :: ds) ∧ Sign sign ∧ IntPart int ∧ ds ≠ [] ∧ ∀ b ∈ ds, is_digit b = true

mutual

/-- The floating point numbers of the value are finite. -/
def Value.Finite : Value Bytes D → Prop
  | .double d => lib.Fixed d
  | .array list => finite_list list
  | .object kvp => finite_members kvp
  | _ => True

def finite_list : List (Value Bytes D) → Prop
  | [] => True
  | v :: list => v.Finite ∧ finite_list list

def finite_members : List (Bytes × Value Bytes D) → Prop
  | [] => True
  | (_, v) :: kvp => v.Finite ∧ finite_members kvp

end

end Reread

/-! The spellings that are printed -/

section Scalars

variable {D : Type} {lib : Doubles D} {point : UInt8}

/-- A string is printed as a string, unless there is a byte in it that cannot be read. -/
theorem str_to_json_spec {esc : Bool} {s text : Bytes} (hprint : cson_str_to_json esc s = .ok text) :
    (Quotable s → Spell lib point (.STRING (reread s)) text) ∧ (¬ Quotable s → ∃ b ∈ text, char_class b = none) := by
  simp only [cson_str_to_json] at hprint
  split at hprint
  · next hempty =>
    obtain rfl := Except.ok.inj hprint
    have hquotable : Quotable s := by
      cases s with
      | nil => simp [Quotable]
      | cons b rest =>
        obtain rfl : b = 0 := by simpa using hempty
        simp [Quotable]
    refine ⟨fun _ => ?_, fun hnot => (hnot hquotable).elim⟩
    rw [reread, if_pos hempty]
    exact .STRING .nil
  · next hne =>
    obtain ⟨body, hbody, hprint⟩ := bind_ok hprint
    obtain rfl := Except.ok.inj hprint
    obtain ⟨hread, hreject⟩ := print_chars_spec hbody (Nat.le_refl _)
    refine ⟨fun hquotable => ?_, fun hnot => ?_⟩
    · rw [reread, if_neg hne]
      exact .STRING (hread hquotable)
    · obtain ⟨b, hb, hclass⟩ := hreject hnot
      exact ⟨b, List.mem_cons_of_mem _ (List.mem_append_left _ hb), hclass⟩

theorem chars_bytes {s : List Char} (hs : ∀ c ∈ s, c.toNat < 128) : chars (bytes s) = s := by
  rw [chars, bytes, List.map_map]
  refine List.map_congr_left (fun c hc => ?_) |>.trans (List.map_id s)
  have hbyte : c.toUInt8.toNat = c.toNat := Nat.mod_eq_of_lt (Nat.lt_trans (hs c hc) (by decide))
  simp only [Function.comp_apply, hbyte, Char.ofNat_toNat, id_eq]

/-- A digit is the same in both alphabets. -/
theorem digit_byte {c : Char} (hc : c.isDigit = true) :
    c.toNat < 128 ∧ is_digit c.toUInt8 = true ∧ (c ≠ '0' → c.toUInt8 ≠ 0x30) := by
  have hrange : 48 ≤ c.toNat ∧ c.toNat ≤ 57 := Char.isDigit_iff_toNat.mp hc
  have hbyte : c.toUInt8.toNat = c.toNat := Nat.mod_eq_of_lt (Nat.lt_of_le_of_lt hrange.2 (by decide))
  refine ⟨Nat.lt_of_le_of_lt hrange.2 (by decide), ?_, fun hne heq => hne ?_⟩
  · simp only [is_digit, Bool.and_eq_true, decide_eq_true_eq, UInt8.le_iff_toNat_le, hbyte]
    exact hrange
  · have hzero : c.toNat = 48 := by rw [← hbyte, heq]; rfl
    rw [← Char.ofNat_toNat c, hzero]

theorem toDigits_bytes (n : ℕ) : ∀ b ∈ bytes (Nat.toDigits 10 n), is_digit b = true := by
  intro b hb
  obtain ⟨c, hc, rfl⟩ := List.mem_map.mp hb
  exact (digit_byte (Nat.isDigit_of_mem_toDigits (by decide) (by decide) hc)).2.1

theorem intPart_toDigits (n : ℕ) : IntPart (bytes (Nat.toDigits 10 n)) := by
  by_cases hn : n = 0
  · subst hn
    exact .zero
  · obtain ⟨c, cs, hdigits⟩ := List.exists_cons_of_ne_nil (@Nat.toDigits_ne_nil n 10)
    have hall := toDigits_bytes n
    have hc : c ≠ '0' := by
      rintro rfl
      exact hn (Strtoul.head_toDigits (by rw [hdigits]; rfl))
    have hdigit := digit_byte (Nat.isDigit_of_mem_toDigits (by decide) (by decide) (hdigits ▸ List.mem_cons_self : c ∈ Nat.toDigits 10 n))
    rw [hdigits] at hall ⊢
    exact .digits hdigit.2.1 (hdigit.2.2 hc) fun b hb => hall b (List.mem_cons_of_mem _ hb)

/-- A number is printed as it is read. -/
theorem output_integer_spec (n : Int64) : Spell lib point (.SCALAR (.integer n)) (cson_output_integer n) := by
  have hprint : Scanf.print_int 0 n.toInt = Scanf.sign_chars n.toInt ++ Nat.toDigits 10 n.toInt.natAbs := by
    simp [Scanf.print_int, Scanf.padded_digits]
  have hsign : Sign (bytes (Scanf.sign_chars n.toInt)) := by
    unfold Scanf.sign_chars
    split
    · exact .inr rfl
    · exact .inl rfl
  have hascii : ∀ c ∈ Scanf.print_int 0 n.toInt, c.toNat < 128 := by
    intro c hc
    rcases Scanf.mem_print_int hc with rfl | hdigit
    · decide
    · exact (digit_byte hdigit).1
  have hscan := @Scanf.scan_int_print_int isspace 0 [] (by decide) (fun _ => isDigit_not_isspace) (by simp) n.toInt
  rw [List.append_nil] at hscan
  have hvalue : sscanf_lld (cson_output_integer n) = n := by
    rw [sscanf_lld, cson_output_integer, chars_bytes hascii, hscan]
    exact Int64.ofIntClamp_toInt n
  have hspell := @Spell.INTEGER D lib point _ _ hsign (intPart_toDigits n.toInt.natAbs)
  have htext : cson_output_integer n = bytes (Scanf.sign_chars n.toInt) ++ bytes (Nat.toDigits 10 n.toInt.natAbs) := by
    rw [cson_output_integer, hprint, bytes, List.map_append]
    rfl
  rwa [← htext, hvalue] at hspell

/-- At least one digit is left after the point. -/
theorem strip_fixed {text ds : Bytes} (hne : ds ≠ []) (hds : ∀ b ∈ ds, is_digit b = true) :
    ∃ ds', ds' ≠ [] ∧ (∀ b ∈ ds', is_digit b = true) ∧ stripped (text ++ 0x2E :: ds) = text ++ 0x2E :: ds' := by
  induction ds using List.reverseRecOn with
  | nil => exact absurd rfl hne
  | append_singleton ds d ih =>
    obtain ⟨hds', hd⟩ := List.forall_mem_append.mp hds
    have hreverse : (text ++ 0x2E :: (ds ++ [d])).reverse = d :: (ds.reverse ++ 0x2E :: text.reverse) := by simp
    by_cases hzero : d = 0x30
    · subst hzero
      cases ds using List.reverseRecOn with
      | nil =>
        refine ⟨[0x30], by simp, by simpa using hd, ?_⟩
        rw [stripped, hreverse]
        simp [strip_zeros]
      | append_singleton ds e =>
        have he : e ≠ 0x2E := by
          rintro rfl
          exact absurd (hds' 0x2E (by simp)) (by decide)
        obtain ⟨ds', hne', hall, heq⟩ := ih (by simp) hds'
        refine ⟨ds', hne', hall, ?_⟩
        rw [← heq, stripped, stripped, hreverse]
        simp [strip_zeros, he]
    · refine ⟨ds ++ [d], by simp, hds, ?_⟩
      have hsame : strip_zeros (d :: (ds.reverse ++ 0x2E :: text.reverse)) = d :: (ds.reverse ++ 0x2E :: text.reverse) := by
        unfold strip_zeros
        split
        · next heq => exact absurd (List.cons.inj heq).1 hzero
        · rfl
      rw [stripped, hreverse, hsame, ← hreverse, List.reverse_reverse]

theorem output_double_spec {d : D} (hfixed : lib.Fixed d) {text : Bytes} (hprint : cson_output_double lib d = .ok text) :
    Spell lib 0x2E (.SCALAR (.double (lib.number (stripped (lib.sprintf d))))) text := by
  simp only [cson_output_double] at hprint
  split at hprint
  · cases hprint
  split at hprint
  · cases hprint
  obtain rfl := Except.ok.inj hprint
  obtain ⟨sign, int, ds, hsprintf, hsign, hint, hne, hds⟩ := hfixed
  obtain ⟨ds', -, hall, hstripped⟩ := @strip_fixed (sign ++ int) ds hne hds
  have htext : stripped (lib.sprintf d) = sign ++ (int ++ 0x2E :: (ds' ++ [])) := by
    rw [hsprintf, ← List.append_assoc, hstripped]
    simp
  have hspell := @Spell.DOUBLE D lib 0x2E _ _ (.point hsign hint hall (.inl rfl))
  rw [← htext] at hspell
  exact hspell

end Scalars

end cson
