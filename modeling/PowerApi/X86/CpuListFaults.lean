import PowerApi.X86.CpuGrammar

namespace pwrapi.x86

/-- A string that the grammar of CPU lists generates. -/
def InGrammar (s : List Char) : Prop :=
  ∃ spans, spans ≠ [] ∧ (∀ span ∈ spans, span.WellFormed) ∧ s = print_list spans

/-- `x86_list_parse_bitmask` returns an error. -/
def Errors (s : List Char) (mask : Bitmask) : Prop := ∃ mask', x86_list_parse_bitmask s mask = some (1, mask')

section Items

variable (used : UInt64)

/-- An item in which a number is missing or the step is zero, or a range from high to low, or one that
comes to a CPU beyond the mask. -/
def Faulty (item : List Char) : Prop :=
  ∀ range rest, read_item item = some (range, rest) → range.last < range.beg ∨ Overruns used range

/-- An item whose numbers are those of a range from low to high, whatever else it holds. -/
def Passes (item : List Char) : Prop :=
  ∃ range rest, read_item item = some (range, rest) ∧ range.beg ≤ range.last ∧ Ends used range

/-- An item with something behind the number that is read last. -/
def Trails (item : List Char) : Prop :=
  ∃ range rest, read_item item = some (range, rest) ∧ rest ≠ []

/-- All items before a faulty one pass, or all items pass and something is behind the last number of the
last one. -/
def Rejected : List (List Char) → Prop
  | [] => False
  | [item] => Faulty used item ∨ Passes used item ∧ Trails item
  | item :: next :: rest => Faulty used item ∨ Passes used item ∧ Rejected (next :: rest)

end Items

section Runs

variable {mask : Bitmask} {item t : List Char}

/-- The loop over the ranges fails at a faulty item. -/
theorem parse_ranges_faulty (fuel r : ℕ) (ht : EndsItem t) (hitem : ',' ∉ item) (h : Faulty mask.used item) :
    ∃ mask', parse_ranges (fuel + 1) (some (item ++ t)) r mask = some (false, mask') := by
  rw [parse_ranges_item ht hitem]
  cases hread : read_item item with
  | none => exact ⟨mask, rfl⟩
  | some read =>
    obtain ⟨range, rest⟩ := read
    by_cases hle : range.beg ≤ range.last
    · obtain hlt | hover := h range rest hread
      · exact absurd hlt (UInt32.not_lt.mpr hle)
      · obtain ⟨k, hwalks, hreached, hused⟩ := hover
        obtain ⟨mask', -, hrun, -⟩ := set_range_of_overruns hwalks hreached hused
        exact ⟨mask', by simp only [hle, if_true, hrun]⟩
    · exact ⟨mask, by simp only [hle, if_false]⟩

/-- It goes on behind an item that passes. -/
theorem parse_ranges_passes (fuel r : ℕ) (ht : EndsItem t) (hitem : ',' ∉ item) (h : Passes mask.used item) :
    ∃ next : Bitmask, next.used = mask.used ∧ ∃ r' : ℕ, (r' = 2 ↔ (Trails item ∨ t ≠ [])) ∧
      parse_ranges (fuel + 1) (some (item ++ t)) r mask =
        parse_ranges fuel (x86_string_parse_token (some t) ',') r' next := by
  obtain ⟨range, rest, hread, hle, k, hwalks, hlast⟩ := h
  obtain ⟨next, hused, hrun, -⟩ := set_range_of_walks hwalks hlast
  refine ⟨next, hused, if rest = [] ∧ t = [] then 1 else 2, ?_, ?_⟩
  · have htrails : Trails item ↔ rest ≠ [] := by simp [Trails, hread]
    rw [htrails]
    split_ifs with hend
    · simpa using hend
    · simpa [imp_iff_not_or] using hend
  · rw [parse_ranges_item ht hitem, hread]
    simp only [hle, if_true, hrun]

/-- It never ends at any other item. -/
theorem parse_ranges_stuck (fuel r : ℕ) (ht : EndsItem t) (hitem : ',' ∉ item)
    (hfaulty : ¬ Faulty mask.used item) (hpasses : ¬ Passes mask.used item) :
    parse_ranges (fuel + 1) (some (item ++ t)) r mask = none := by
  rw [Faulty] at hfaulty
  push Not at hfaulty
  obtain ⟨range, rest, hread, hle, hover⟩ := hfaulty
  obtain hends | habs | hendless := walks_cases mask.used range
  · exact absurd ⟨range, rest, hread, UInt32.not_lt.mp hle, hends⟩ hpasses
  · exact absurd habs hover
  · rw [parse_ranges_item ht hitem, hread]
    simp only [UInt32.not_lt.mp hle, if_true, set_range_of_endless hendless]

end Runs

section Rejects

variable {used : UInt64} {mask : Bitmask} {item s t : List Char} {items : List (List Char)} {fuel r : ℕ}

theorem rejected_cons (hne : items ≠ []) :
    Rejected used (item :: items) ↔ Faulty used item ∨ Passes used item ∧ Rejected used items := by
  obtain ⟨next, rest, rfl⟩ := List.exists_cons_of_ne_nil hne
  rfl

/-- The loop over the ranges fails just on the strings whose items are rejected. -/
theorem parse_ranges_fails_iff (hfuel : s.length < fuel) :
    (∃ mask', parse_ranges fuel (some s) r mask = some (false, mask')) ↔ Rejected mask.used (s.splitOn ',') := by
  induction fuel generalizing s r mask with
  | zero => exact absurd hfuel (Nat.not_lt_zero _)
  | succ fuel ih =>
    cases htok : x86_string_parse_token (some s) ',' with
    | none =>
      have hitem := not_mem_of_token htok
      have hwhole : s = s ++ [] := (List.append_nil s).symm
      rw [List.splitOn_eq_singleton hitem, Rejected]
      by_cases hfaulty : Faulty mask.used s
      · obtain ⟨mask', hrun⟩ := parse_ranges_faulty fuel r (.inl rfl) hitem hfaulty
        rw [← hwhole] at hrun
        exact iff_of_true ⟨mask', hrun⟩ (.inl hfaulty)
      by_cases hpasses : Passes mask.used s
      · obtain ⟨next, -, r', hr, hrun⟩ := parse_ranges_passes fuel r (.inl rfl) hitem hpasses
        rw [← hwhole, token_nil, parse_ranges_none] at hrun
        rw [hrun]
        simp [hfaulty, hpasses, hr]
      · have hrun := parse_ranges_stuck fuel r (.inl rfl) hitem hfaulty hpasses
        rw [← hwhole] at hrun
        rw [hrun]
        simp [hfaulty, hpasses]
    | some tail =>
      obtain ⟨item, hitem, rfl⟩ := eq_of_token htok
      have ht : EndsItem (',' :: tail) := .inr ⟨tail, rfl⟩
      rw [List.splitOn_append_cons_self_of_not_mem hitem, rejected_cons (List.splitOn_ne_nil _ _)]
      by_cases hfaulty : Faulty mask.used item
      · exact iff_of_true (parse_ranges_faulty fuel r ht hitem hfaulty) (.inl hfaulty)
      by_cases hpasses : Passes mask.used item
      · obtain ⟨next, hused, r', -, hrun⟩ := parse_ranges_passes fuel r ht hitem hpasses
        have hlength : tail.length < fuel := by
          rw [List.length_append, List.length_cons] at hfuel
          omega
        rw [hrun, token_cons, if_pos rfl, ih hlength, hused]
        simp [hfaulty, hpasses]
      · rw [parse_ranges_stuck fuel r ht hitem hfaulty hpasses]
        simp [hfaulty, hpasses]

theorem errors_iff (s : List Char) (mask : Bitmask) : Errors s mask ↔ Rejected mask.used (s.splitOn ',') := by
  have hloop := @parse_ranges_fails_iff mask.clear_all s (s.length + 1) 0 (Nat.lt_succ_self _)
  rw [mask.used_clear_all] at hloop
  rw [← hloop, Errors, x86_list_parse_bitmask]
  cases parse_ranges (s.length + 1) (some s) 0 mask.clear_all with
  | none => simp
  | some ended =>
    obtain ⟨ok, mask'⟩ := ended
    cases ok <;> simp

/-- A string that is not in the grammar is refused just when one of its items is faulty or its end is:
what is behind a number of any other item is not looked at. -/
theorem x86_list_parse_bitmask_rejects_iff (s : List Char) (mask : Bitmask) :
    (¬ InGrammar s → Errors s mask) ↔ InGrammar s ∨ Rejected mask.used (s.splitOn ',') := by
  rw [← errors_iff, or_iff_not_imp_left]

/-- The list "1x,2" is not in the grammar, and is read as "1,2". -/
theorem x86_list_parse_bitmask_stray : ¬ InGrammar ['1', 'x', ',', '2'] ∧
    x86_list_parse_bitmask ['1', 'x', ',', '2'] ⟨8, [0], rfl⟩ = some (0, ⟨8, [6], rfl⟩) ∧
    ¬ Errors ['1', 'x', ',', '2'] ⟨8, [0], rfl⟩ := by
  have hrun : x86_list_parse_bitmask ['1', 'x', ',', '2'] ⟨8, [0], rfl⟩ = some (0, ⟨8, [6], rfl⟩) := by
    decide +kernel
  refine ⟨?_, hrun, ?_⟩
  · rintro ⟨spans, -, -, hprint⟩
    have hx : 'x' ∈ print_list spans := by
      rw [← hprint]
      decide
    exact absurd (mem_print_list hx) (by decide)
  · rintro ⟨mask', herror⟩
    rw [hrun] at herror
    cases herror

end Rejects

end pwrapi.x86
