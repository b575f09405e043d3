import Mathlib.Algebra.Group.Int.Defs
import Mathlib.Data.Int.Order.Basic
import PowerApi.Lib.AscendingTable
import PowerApi.Types

open AscendingTable

namespace pwrapi.cpudev

/-- The number of sleep states, which is that of performance states too. -/
abbrev PWR_NUM_SLEEP_STATES : ℕ := 5

/-- The table from ordered states to the indices below a number: the first state has the
lowest index, the last one the highest, and the other three are spread between them. -/
def init_state_table (num : Int) : List Int :=
  let table := (List.replicate 5 0).set 0 0
  if num > 1 then
    let table := table.set 4 (num - 1)
    let jump := (num - 2).tdiv 3
    if jump < 1 then
      let table := [1, 2, 3].foldl (fun table i => table.set i 1) table
      if num = 4 then table.set 3 2 else table
    else ((table.set 1 jump).set 2 (jump * 2)).set 3 (jump * 3)
  else table

/-- The index of a state. A state outside the table is read from beside it, which is not defined. -/
def map_state (table : List Int) (state : Int) : Option Int :=
  if 0 ≤ state then table[state.toNat]? else none

/-- The first state whose index is at least the given one, or -1. -/
def map_index (table : List Int) (index : Int) : Int :=
  match first_at_least table index with
  | none => -1
  | some i => i

def init_ss_to_cs (num_cstates : Int) : List Int := init_state_table num_cstates

def map_ss_to_cs (ss_to_cs : List Int) (sstate : Int) : Option Int := map_state ss_to_cs sstate

def map_cs_to_ss (ss_to_cs : List Int) (cstate : Int) : Int := map_index ss_to_cs cstate

def init_ps_to_freq (num_freqs : Int) : List Int := init_state_table num_freqs

def map_ps_to_freq (ps_to_freq : List Int) (pstate : Int) : Option Int := map_state ps_to_freq pstate

def map_freq_to_ps (ps_to_freq : List Int) (freq_idx : Int) : Int := map_index ps_to_freq freq_idx

/-- A map from the states to the indices below a number, and the map back. -/
structure MapsAgree (num : Int) (to_index : Int → Option Int) (to_state : Int → Int) : Prop where
  in_range : ∀ s, 0 ≤ s → s < 5 → ∃ x, to_index s = some x ∧ 0 ≤ x ∧ x < num
  monotone : ∀ s t x y, s ≤ t → to_index s = some x → to_index t = some y → x ≤ y
  first : to_index 0 = some 0
  last : to_index 4 = some (num - 1)
  adjoint : ∀ c s x, 0 ≤ c → c < num → to_index s = some x → (to_state c ≤ s ↔ c ≤ x)
  retract : ∀ c, 0 ≤ c → c < num → ∃ x, to_index (to_state c) = some x ∧ to_state x = to_state c
  found : ∀ c, 0 ≤ c → c < num → to_state c ≠ -1
  not_found : ∀ c, num ≤ c → to_state c = -1

section Tables

variable {num c s x : Int} {table : List Int}

/-- The entries, where there are fewer indices than states and where there are not. -/
theorem init_state_table_eq (num : Int) : init_state_table num =
    if num ≤ 1 then [0, 0, 0, 0, 0]
    else if num < 5 then [0, 1, 1, if num = 4 then 2 else 1, num - 1]
    else [0, (num - 2) / 3, (num - 2) / 3 * 2, (num - 2) / 3 * 3, num - 1] := by
  unfold init_state_table
  by_cases hone : num ≤ 1
  · rw [if_pos hone, if_neg (by omega)]
    rfl
  · rw [if_neg hone, if_pos (by omega), Int.tdiv_eq_ediv_of_nonneg (by omega)]
    by_cases hfew : num < 5
    · rw [if_pos hfew, if_pos (by omega)]
      split_ifs
      · rfl
      · rfl
    · rw [if_neg hfew, if_neg (by omega)]
      rfl

@[simp] theorem length_init_state_table (num : Int) : (init_state_table num).length = 5 := by
  rw [init_state_table_eq]
  split_ifs <;> rfl

/-- The rounding keeps the order. -/
theorem init_state_table_ascending (num : Int) : (init_state_table num).Pairwise (· ≤ ·) := by
  rw [init_state_table_eq]
  split_ifs
  · decide
  all_goals
    simp only [List.pairwise_cons, List.mem_cons, List.not_mem_nil, forall_eq_or_imp, or_false, forall_eq,
      IsEmpty.forall_iff, implies_true, List.Pairwise.nil, and_true]
    omega

theorem init_state_table_mem (hnum : 1 ≤ num) : ∀ x ∈ init_state_table num, 0 ≤ x ∧ x < num := by
  rw [init_state_table_eq]
  split_ifs
  all_goals
    simp only [List.mem_cons, List.not_mem_nil, or_false, forall_eq_or_imp, forall_eq]
    omega

theorem init_state_table_first (num : Int) : (init_state_table num)[0]? = some 0 := by
  rw [init_state_table_eq]
  split_ifs <;> rfl

theorem init_state_table_last (hnum : 1 ≤ num) : (init_state_table num)[4]? = some (num - 1) := by
  rw [init_state_table_eq]
  split_ifs
  · have hone : num = 1 := by omega
    subst hone
    rfl
  · rfl
  · rfl
  · rfl

theorem map_state_eq_some : map_state table s = some x ↔ 0 ≤ s ∧ table[s.toNat]? = some x := by
  unfold map_state
  split_ifs with hs
  · simp [hs]
  · simp [hs]

theorem map_state_init {num s x : Int} (h : map_state (init_state_table num) s = some x) :
    0 ≤ s ∧ ∃ hs : s.toNat < (init_state_table num).length, (init_state_table num)[s.toNat] = x := by
  obtain ⟨hpos, hlookup⟩ := map_state_eq_some.mp h
  exact ⟨hpos, List.getElem?_eq_some_iff.mp hlookup⟩

/-- An index in range is found at or before the last state. -/
theorem first_at_least_init (hnum : 1 ≤ num) (hc : c < num) :
    ∃ i, first_at_least (init_state_table num) c = some i ∧ map_index (init_state_table num) c = i := by
  cases hfirst : first_at_least (init_state_table num) c with
  | none =>
    have hlast := first_at_least_eq_none.mp hfirst (num - 1) (List.mem_of_getElem? (init_state_table_last hnum))
    omega
  | some i => exact ⟨i, rfl, by rw [map_index, hfirst]⟩

/-- The maps between states and indices agree. -/
theorem state_maps_agree (hnum : 1 ≤ num) :
    MapsAgree num (map_state (init_state_table num)) (map_index (init_state_table num)) where
  in_range s hpos hlt := by
    have hs : s.toNat < (init_state_table num).length := by
      rw [length_init_state_table]
      omega
    refine ⟨(init_state_table num)[s.toNat], map_state_eq_some.mpr ⟨hpos, List.getElem?_eq_getElem hs⟩, ?_⟩
    exact init_state_table_mem hnum _ (List.getElem_mem hs)
  monotone s t x y hle hx hy := by
    obtain ⟨hspos, hs, rfl⟩ := map_state_init hx
    obtain ⟨htpos, ht, rfl⟩ := map_state_init hy
    rcases Nat.lt_or_eq_of_le (Int.toNat_le_toNat hle) with hlt | heq
    · exact List.pairwise_iff_getElem.mp (init_state_table_ascending num) _ _ hs ht hlt
    · simp only [heq, Int.le_refl]
  first := map_state_eq_some.mpr ⟨Int.le_refl 0, init_state_table_first num⟩
  last := map_state_eq_some.mpr ⟨by decide, init_state_table_last hnum⟩
  adjoint c s x _ hc hx := by
    obtain ⟨hpos, hs, rfl⟩ := map_state_init hx
    obtain ⟨i, hfirst, hindex⟩ := first_at_least_init hnum hc
    rw [hindex, ← first_at_least_le_iff (init_state_table_ascending num) hfirst hs]
    omega
  retract c _ hc := by
    obtain ⟨i, hfirst, hindex⟩ := first_at_least_init hnum hc
    obtain ⟨hi, _, _⟩ := first_at_least_spec hfirst
    rw [hindex]
    refine ⟨(init_state_table num)[i], map_state_eq_some.mpr ⟨Int.natCast_nonneg i, ?_⟩, ?_⟩
    · rw [Int.toNat_natCast, List.getElem?_eq_getElem hi]
    · rw [map_index, first_at_least_getElem hfirst hi]
  found c _ hc := by
    obtain ⟨i, _, hindex⟩ := first_at_least_init hnum hc
    rw [hindex]
    omega
  not_found c hc := by
    have hnone : first_at_least (init_state_table num) c = none :=
      first_at_least_eq_none.mpr fun x hx => lt_of_lt_of_le (init_state_table_mem hnum x hx).2 hc
    rw [map_index, hnone]

end Tables

/-- For every number of C-states, and of frequencies, the table of states and the reverse map agree. -/
theorem cpudev_maps_agree {num : Int} (hnum : 1 ≤ num) :
    MapsAgree num (map_ss_to_cs (init_ss_to_cs num)) (map_cs_to_ss (init_ss_to_cs num)) ∧
      MapsAgree num (map_ps_to_freq (init_ps_to_freq num)) (map_freq_to_ps (init_ps_to_freq num)) :=
  ⟨state_maps_agree hnum, state_maps_agree hnum⟩

/-- C-state 3 of nine belongs to the medium sleep state. -/
theorem cpudev_maps_agree_nine : init_ss_to_cs 9 = [0, 2, 4, 6, 8] ∧
    (map_cs_to_ss (init_ss_to_cs 9) 3 ≤ 2 ↔ (3 : Int) ≤ 4) :=
  ⟨by decide, (cpudev_maps_agree (by decide)).1.adjoint 3 2 4 (by decide) (by decide) (by decide)⟩

end pwrapi.cpudev
