import Mathlib.Order.Bounds.Defs
import Mathlib.Algebra.Ring.Nat
import PowerApi.Daemon.ControlFile

open pwrapi.daemon

namespace pwrapi.x86

/-- The loop of `x86_ht_get_cstate_limit` over the flags of the states `i`, `i + 1`
    and so on: the value of `i` when it ends. -/
def x86_ht_get_cstate_limit_loop : UInt64 → List UInt64 → UInt64
  | i, [] => i
  | i, disable :: rest => if disable ≠ 0 then i else x86_ht_get_cstate_limit_loop (i + 1) rest

/-- The limit the library reads from the directory of a hardware thread, or
    `none` where the directory cannot be opened. -/
def x86_ht_get_cstate_limit : ControlFile → Option UInt64
  | .cstates flags => some (x86_ht_get_cstate_limit_loop 1 flags.tail - 1)
  | _ => none

/-- The states `1` to `limit` are present and enabled. -/
def EnabledUpTo (flags : List UInt64) (limit : Nat) : Prop :=
  limit < flags.length ∧ ∀ i, 1 ≤ i → i ≤ limit → flags[i]? = some 0

/-- Both loops stop after the leading enabled states. -/
theorem read_cstate_limit_loop_eq (i : Nat) (flags : List UInt64) :
    read_cstate_limit_loop i flags = i + (flags.takeWhile (· = 0)).length := by
  induction flags generalizing i with
  | nil => rfl
  | cons disable rest ih =>
    by_cases henabled : disable = 0
    · subst henabled
      rw [List.takeWhile_cons_of_pos (by decide), List.length_cons, read_cstate_limit_loop,
        if_neg (by decide), ih]
      omega
    · have hpos : 0 < disable := UInt64.pos_iff_ne_zero.mpr henabled
      rw [List.takeWhile_cons_of_neg (by simpa using henabled), read_cstate_limit_loop, if_pos hpos]
      rfl

theorem x86_ht_get_cstate_limit_loop_eq (i : Nat) (flags : List UInt64) :
    x86_ht_get_cstate_limit_loop (.ofNat i) flags = .ofNat (read_cstate_limit_loop i flags) := by
  induction flags generalizing i with
  | nil => rfl
  | cons disable rest ih =>
    rw [x86_ht_get_cstate_limit_loop, read_cstate_limit_loop]
    by_cases henabled : disable = 0
    · rw [if_neg (by simpa using henabled), if_neg (by simp [henabled]), ← ih (i + 1), UInt64.ofNat_add,
        UInt64.ofNat_one]
    · rw [if_pos henabled, if_pos (UInt64.pos_iff_ne_zero.mpr henabled)]

/-- Library and daemon read the same limit from a directory. -/
theorem x86_ht_get_cstate_limit_eq (flags : List UInt64) :
    x86_ht_get_cstate_limit (.cstates flags) = read_cstate_limit (.cstates flags) := by
  have hloop := x86_ht_get_cstate_limit_loop_eq 1 flags.tail
  rw [UInt64.ofNat_one] at hloop
  have hpos : 1 ≤ read_cstate_limit_loop 1 flags.tail := by
    rw [read_cstate_limit_loop_eq]
    omega
  rw [x86_ht_get_cstate_limit, hloop, read_cstate_limit, ControlFile.flags, UInt64.ofNat_sub hpos, UInt64.ofNat_one]

theorem getElem?_of_lt_takeWhile {flags : List UInt64} {j : Nat}
    (hj : j < (flags.takeWhile (· = 0)).length) : flags[j]? = some 0 := by
  induction flags generalizing j with
  | nil => cases hj
  | cons disable rest ih =>
    by_cases henabled : disable = 0
    · rw [List.takeWhile_cons_of_pos (by simpa using henabled)] at hj
      cases j with
      | zero => simp [henabled]
      | succ j => exact ih (Nat.lt_of_succ_lt_succ hj)
    · rw [List.takeWhile_cons_of_neg (by simpa using henabled)] at hj
      cases hj

theorem le_takeWhile_of_getElem? {flags : List UInt64} {m : Nat} (h : ∀ j < m, flags[j]? = some 0) :
    m ≤ (flags.takeWhile (· = 0)).length := by
  induction flags generalizing m with
  | nil =>
    cases m with
    | zero => exact Nat.le_refl 0
    | succ m => cases h 0 (Nat.succ_pos m)
  | cons disable rest ih =>
    cases m with
    | zero => exact Nat.zero_le _
    | succ m =>
      have henabled : disable = 0 := Option.some.inj (h 0 (Nat.succ_pos m))
      rw [List.takeWhile_cons_of_pos (by simpa using henabled)]
      exact Nat.succ_le_succ (ih fun j hj => h (j + 1) (Nat.succ_lt_succ hj))

/-- The leading enabled states above state 0 reach as far as possible. -/
theorem isGreatest_enabledUpTo (first : UInt64) (rest : List UInt64) :
    IsGreatest {limit | EnabledUpTo (first :: rest) limit} (rest.takeWhile (· = 0)).length := by
  constructor
  · refine ⟨Nat.lt_succ_of_le (rest.takeWhile_prefix _).length_le, ?_⟩
    intro i hlo hhi
    obtain ⟨j, rfl⟩ := Nat.exists_eq_add_of_le' hlo
    rw [List.getElem?_cons_succ]
    exact getElem?_of_lt_takeWhile (Nat.lt_of_succ_le hhi)
  · rintro limit ⟨_, henabled⟩
    exact le_takeWhile_of_getElem? fun j hj => henabled (j + 1) (Nat.succ_pos j) hj

/-- A limit below the number of states can be written, whatever the flags were. -/
theorem write_cstate_limit_success {flags : List UInt64} {ivalue : UInt64} (h : ivalue.toNat < flags.length) :
    ∃ flags', write_cstate_limit (.cstates flags) ivalue = some (.cstates flags') := by
  rw [write_cstate_limit, get_cstates_count, ControlFile.flags, if_neg (Nat.not_le.mpr h)]
  exact ⟨_, rfl⟩

/-- Daemon and library read one limit, the largest one up to which every state
from 1 on is enabled, and any limit that the daemon writes. -/
theorem cstate_limits_agree (flags : List UInt64) (hpresent : 1 ≤ flags.length) :
    (∃ limit, IsGreatest {limit | EnabledUpTo flags limit} limit ∧
      read_cstate_limit (.cstates flags) = some (.ofNat limit) ∧
      x86_ht_get_cstate_limit (.cstates flags) = some (.ofNat limit)) ∧
    ∀ ivalue : UInt64, ivalue.toNat < flags.length →
      ∃ written, write_cstate_limit (.cstates flags) ivalue = some written ∧
        read_cstate_limit written = some ivalue ∧ x86_ht_get_cstate_limit written = some ivalue := by
  constructor
  · obtain ⟨first, rest, rfl⟩ := List.exists_cons_of_length_pos hpresent
    have hread : read_cstate_limit (.cstates (first :: rest)) =
        some (.ofNat (rest.takeWhile (· = 0)).length) := by
      rw [read_cstate_limit, ControlFile.flags, List.tail_cons, read_cstate_limit_loop_eq, Nat.add_sub_cancel_left]
    refine ⟨_, isGreatest_enabledUpTo first rest, hread, ?_⟩
    rw [x86_ht_get_cstate_limit_eq, hread]
  · intro ivalue hlt
    obtain ⟨flags', hwrite⟩ := write_cstate_limit_success hlt
    have hread := read_cstate_limit_of_write hwrite
    exact ⟨_, hwrite, hread, by rw [x86_ht_get_cstate_limit_eq, hread]⟩

theorem cstate_limits_agree_disabled_below_enabled :
    (∃ limit, IsGreatest {limit | EnabledUpTo [0, 0, 1, 0] limit} limit ∧
      read_cstate_limit (.cstates [0, 0, 1, 0]) = some (.ofNat limit) ∧
      x86_ht_get_cstate_limit (.cstates [0, 0, 1, 0]) = some (.ofNat limit)) ∧
    ∃ written, write_cstate_limit (.cstates [0, 0, 1, 0]) 3 = some written ∧
      read_cstate_limit written = some 3 ∧ x86_ht_get_cstate_limit written = some 3 :=
  have hagree := cstate_limits_agree [0, 0, 1, 0] (by decide)
  ⟨hagree.1, hagree.2 3 (by decide)⟩

end pwrapi.x86
