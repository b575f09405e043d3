import Mathlib.Data.List.Basic
import Mathlib.Logic.Function.Basic

namespace pwrapi.log

abbrev MAX_MSG_SIZE : ℕ := 4096 - 128

structure Timeval where
  tv_sec : Int
  tv_usec : Int
  deriving DecidableEq, Repr

/-- `msgblk_t`, with the memory from the beginning of `message` on, of which `MAX_MSG_SIZE` bytes
are the array's. -/
structure Msgblk where
  msglen : ℕ
  txtlen : ℕ
  msgtype : Int
  tid : ℕ
  tv : Timeval
  message : ℕ → UInt8

/-- Four numbers of four bytes, a time of sixteen, and the array. -/
abbrev sizeof_msgblk : ℕ := 4 * 4 + 16 + MAX_MSG_SIZE

abbrev MSG_HDR_SIZE : ℕ := sizeof_msgblk - MAX_MSG_SIZE

/-- A message block with the indices into `message` that were written: those of the text and its
NUL, and those of the padding. -/
structure Formatted where
  msg : Msgblk
  text : List ℕ := []
  pads : List ℕ := []

/-- What `vsnprintf` is given and makes of it: no format, one that fails, or the characters to print. -/
inductive Printed where
  | null
  | error
  | chars (bytes : List UInt8)
  deriving DecidableEq, Repr

/-- One byte of padding. -/
def pad_byte (f : Formatted) : Formatted :=
  { f with
    msg := { f.msg with message := Function.update f.msg.message f.msg.msglen 0, msglen := f.msg.msglen + 1 }
    pads := f.pads ++ [f.msg.msglen] }

/-- The loop that pads with NUL to an 8-byte boundary, which is at most seven bytes away. -/
def pad : ℕ → Formatted → Formatted
  | 0, f => f
  | fuel + 1, f => if f.msg.msglen &&& 0x7 ≠ 0 then pad fuel (pad_byte f) else f

/-- The length of the whole block, and its padding. -/
def pad_block (f : Formatted) : Formatted :=
  pad 7 { f with msg := { f.msg with msglen := 1 + f.msg.txtlen + MSG_HDR_SIZE } }

/-- `vsnprintf` into `message`. -/
def print_text (bytes : List UInt8) (f : Formatted) : Formatted :=
  let stored := bytes.take (MAX_MSG_SIZE - 1) ++ [0]
  { f with
    msg := { f.msg with message := fun i => stored.getD i (f.msg.message i) }
    text := f.text ++ List.range stored.length }

/-- `_vmsgformat`, with the length it returns unless it returns -1. -/
def vmsgformat (tv : Timeval) (tid : ℕ) (msgtype : Int) (fmt : Printed) (msg : Msgblk) : Option (ℕ × Formatted) :=
  let f : Formatted := { msg := { msg with tv, tid, msgtype } }
  match fmt with
  | .error => none
  | .null => some (0, pad_block { f with msg := { f.msg with txtlen := 0 } })
  | .chars bytes =>
    let f := print_text bytes f
    let len := if bytes.length > MAX_MSG_SIZE - 1 then MAX_MSG_SIZE - 1 else bytes.length
    some (len, pad_block { f with msg := { f.msg with txtlen := len } })

/-- The block that `pmlog_message_ctx` makes, which it pads once more. -/
def pmlog_message_block (tv : Timeval) (tid : ℕ) (msg_type : Int) (fmt : Printed) (msg : Msgblk) :
    Option (ℕ × Formatted) :=
  (vmsgformat tv tid msg_type fmt msg).map fun (len, f) => (len, pad_block f)

/-- What a message block with a text of the given length is expected to be: nothing is written
outside of the array, the padding is what lies between the terminated text and the end of the
block, and the length is a fair one. -/
structure Formatted.WellFormed (len : ℕ) (f : Formatted) : Prop where
  text_inside : ∀ i ∈ f.text, i < MAX_MSG_SIZE
  pads_inside : ∀ i ∈ f.pads, i < MAX_MSG_SIZE
  pads_follow : ∀ i, i ∈ f.pads ↔ len < i ∧ i + MSG_HDR_SIZE < f.msg.msglen
  msglen_dvd : 8 ∣ f.msg.msglen
  le_msglen : MSG_HDR_SIZE + len + 1 ≤ f.msg.msglen
  msglen_le : f.msg.msglen ≤ sizeof_msgblk

theorem sizes : MAX_MSG_SIZE = 3968 ∧ MSG_HDR_SIZE = 32 ∧ sizeof_msgblk = 4000 := ⟨rfl, rfl, rfl⟩

section Padding

variable {f : Formatted} {fuel : ℕ}

/-- How many bytes there are to the next multiple of 8. -/
def missing (n : ℕ) : ℕ := (8 - n % 8) % 8

theorem missing_le (n : ℕ) : missing n ≤ 7 := by
  rw [missing]
  omega

theorem pad_eq (h : missing f.msg.msglen ≤ fuel) :
    (pad fuel f).pads = f.pads ++ List.range' f.msg.msglen (missing f.msg.msglen) ∧
      (pad fuel f).msg.msglen = f.msg.msglen + missing f.msg.msglen ∧ (pad fuel f).text = f.text ∧
      (pad fuel f).msg.txtlen = f.msg.txtlen := by
  induction fuel generalizing f with
  | zero =>
    have hnone : missing f.msg.msglen = 0 := by omega
    rw [hnone]
    simp [pad]
  | succ fuel ih =>
    have hmask : f.msg.msglen &&& 0x7 = f.msg.msglen % 8 := Nat.and_two_pow_sub_one_eq_mod _ 3
    rw [pad, hmask]
    by_cases hzero : f.msg.msglen % 8 = 0
    · have hnone : missing f.msg.msglen = 0 := by
        rw [missing, hzero]
      rw [if_neg (not_not.mpr hzero), hnone]
      simp
    · have hlength : (pad_byte f).msg.msglen = f.msg.msglen + 1 := rfl
      have hnext : missing f.msg.msglen = missing (f.msg.msglen + 1) + 1 := by
        simp only [missing]
        omega
      rw [if_pos hzero]
      obtain ⟨hpads, hmsglen, hrest⟩ := ih (f := pad_byte f) (by rw [hlength]; omega)
      rw [hlength] at hpads hmsglen
      refine ⟨?_, ?_, hrest⟩
      · rw [hpads, hnext, List.range'_succ]
        exact List.append_assoc _ _ _
      · omega

/-- A block is padded as if its header were no part of its length. -/
theorem pad_block_eq (f : Formatted) :
    (pad_block f).pads = f.pads ++ List.range' (1 + f.msg.txtlen + MSG_HDR_SIZE)
        (missing (1 + f.msg.txtlen + MSG_HDR_SIZE)) ∧
      (pad_block f).msg.msglen = 1 + f.msg.txtlen + MSG_HDR_SIZE + missing (1 + f.msg.txtlen + MSG_HDR_SIZE) ∧
      (pad_block f).text = f.text ∧ (pad_block f).msg.txtlen = f.msg.txtlen :=
  pad_eq (missing_le _)

/-- What one or two paddings of a block with a text of a possible length come to. -/
theorem wellFormed_iff {len : ℕ} (hlen : len < MAX_MSG_SIZE) (htext : ∀ i ∈ f.text, i < MAX_MSG_SIZE)
    (hpads : ∀ i, i ∈ f.pads ↔ 1 + len + MSG_HDR_SIZE ≤ i ∧
      i < 1 + len + MSG_HDR_SIZE + missing (1 + len + MSG_HDR_SIZE))
    (hmsglen : f.msg.msglen = 1 + len + MSG_HDR_SIZE + missing (1 + len + MSG_HDR_SIZE)) :
    f.WellFormed len ↔ len % 8 = 7 := by
  have hsmall := missing_le (1 + len + MSG_HDR_SIZE)
  obtain ⟨hmax, hheader, hsize⟩ := sizes
  constructor
  · intro hf
    by_contra hmod
    have hsome : 0 < missing (1 + len + MSG_HDR_SIZE) := by
      rw [missing]
      omega
    -- the first byte of padding lies a header's length behind the text
    have hfirst := (hf.pads_follow (1 + len + MSG_HDR_SIZE)).mp ((hpads _).mpr (by omega))
    omega
  · intro hmod
    have hnone : missing (1 + len + MSG_HDR_SIZE) = 0 := by
      rw [missing]
      omega
    rw [hnone] at hpads hmsglen
    refine ⟨htext, ?_, ?_, ?_, by omega, by omega⟩
    · intro i hi
      have := (hpads i).mp hi
      omega
    · intro i
      rw [hpads]
      omega
    · omega

end Padding

/-- The two functions that make a message block. -/
inductive Formatter where
  | vmsgformat
  | pmlog_message_ctx
  deriving DecidableEq, Repr

def Formatter.format : Formatter → Timeval → ℕ → Int → Printed → Msgblk → Option (ℕ × Formatted)
  | .vmsgformat => log.vmsgformat
  | .pmlog_message_ctx => pmlog_message_block

section Claims

variable {tv : Timeval} {tid : ℕ} {msgtype : Int} {fmt : Printed} {msg : Msgblk} {len : ℕ} {f : Formatted}

/-- What `_vmsgformat` makes of a text. -/
theorem vmsgformat_eq (h : vmsgformat tv tid msgtype fmt msg = some (len, f)) :
    len < MAX_MSG_SIZE ∧ f.msg.txtlen = len ∧ (∀ i ∈ f.text, i < MAX_MSG_SIZE) ∧
      f.pads = List.range' (1 + len + MSG_HDR_SIZE) (missing (1 + len + MSG_HDR_SIZE)) ∧
      f.msg.msglen = 1 + len + MSG_HDR_SIZE + missing (1 + len + MSG_HDR_SIZE) := by
  cases fmt with
  | error => cases h
  | null =>
    cases h
    obtain ⟨hpads, hmsglen, htext, htxtlen⟩ := pad_block_eq
      { msg := { msg with tv, tid, msgtype, txtlen := 0 } }
    exact ⟨Nat.succ_pos _, htxtlen, by simp [htext], hpads.trans (List.nil_append _), hmsglen⟩
  | chars bytes =>
    obtain ⟨hmax, -, -⟩ := sizes
    simp only [vmsgformat, Option.some.injEq, Prod.mk.injEq] at h
    obtain ⟨hlen, rfl⟩ := h
    obtain ⟨hpads, hmsglen, htext, htxtlen⟩ := pad_block_eq
      { print_text bytes { msg := { msg with tv, tid, msgtype } } with
        msg := { (print_text bytes { msg := { msg with tv, tid, msgtype } }).msg with txtlen := len } }
    rw [hlen]
    refine ⟨?_, htxtlen, ?_, hpads.trans (List.nil_append _), hmsglen⟩
    · split at hlen <;> omega
    · rw [htext]
      intro i hi
      have hi : i < (bytes.take (MAX_MSG_SIZE - 1) ++ [0]).length := List.mem_range.mp hi
      rw [List.length_append, List.length_take, List.length_singleton] at hi
      omega

/-- Both functions pad at the same places, the one once and the other twice. -/
theorem format_eq (formatter : Formatter) (h : formatter.format tv tid msgtype fmt msg = some (len, f)) :
    len < MAX_MSG_SIZE ∧ (∀ i ∈ f.text, i < MAX_MSG_SIZE) ∧
      (∀ i, i ∈ f.pads ↔ 1 + len + MSG_HDR_SIZE ≤ i ∧
        i < 1 + len + MSG_HDR_SIZE + missing (1 + len + MSG_HDR_SIZE)) ∧
      f.msg.msglen = 1 + len + MSG_HDR_SIZE + missing (1 + len + MSG_HDR_SIZE) := by
  cases formatter with
  | vmsgformat =>
    obtain ⟨hlen, -, htext, hpads, hmsglen⟩ := vmsgformat_eq h
    refine ⟨hlen, htext, ?_, hmsglen⟩
    intro i
    rw [hpads, List.mem_range'_1]
  | pmlog_message_ctx =>
    obtain ⟨⟨n, first⟩, hfirst, heq⟩ := Option.map_eq_some_iff.mp h
    cases heq
    obtain ⟨hlen, htxtlen, htext, hpads, -⟩ := vmsgformat_eq hfirst
    obtain ⟨hagain, hmsglen, hsame, -⟩ := pad_block_eq first
    rw [htxtlen] at hagain hmsglen
    refine ⟨hlen, by rwa [hsame], ?_, hmsglen⟩
    intro i
    rw [hagain, hpads, List.mem_append, or_self, List.mem_range'_1]

/-- A message block is well formed just when its text leaves nothing to pad. -/
theorem format_wellFormed_iff (formatter : Formatter)
    (h : formatter.format tv tid msgtype fmt msg = some (len, f)) : f.WellFormed len ↔ len % 8 = 7 := by
  obtain ⟨hlen, htext, hpads, hmsglen⟩ := format_eq formatter h
  exact wellFormed_iff hlen htext hpads hmsglen

/-- A block of zeros. -/
def zero_block : Msgblk := ⟨0, 0, 0, 0, ⟨0, 0⟩, fun _ => 0⟩

/-- A text of seven characters needs no padding. -/
theorem format_wellFormed_started : ∃ f, Formatter.pmlog_message_ctx.format ⟨0, 0⟩ 1 0
    (.chars [115, 116, 97, 114, 116, 101, 100]) zero_block = some (7, f) ∧ f.WellFormed 7 := by
  obtain ⟨f, hf⟩ : ∃ f, Formatter.pmlog_message_ctx.format ⟨0, 0⟩ 1 0
      (.chars [115, 116, 97, 114, 116, 101, 100]) zero_block = some (7, f) := ⟨_, rfl⟩
  exact ⟨f, hf, (format_wellFormed_iff _ hf).mpr rfl⟩

/-- The padding of a text of 3966 characters is written behind the end of the array. -/
theorem format_overflows : ∃ f, Formatter.pmlog_message_ctx.format ⟨0, 0⟩ 1 0
    (.chars (List.replicate 3966 120)) zero_block = some (3966, f) ∧
    ¬ f.WellFormed 3966 ∧ ∃ i ∈ f.pads, MAX_MSG_SIZE ≤ i := by
  obtain ⟨f, hf⟩ : ∃ f, Formatter.pmlog_message_ctx.format ⟨0, 0⟩ 1 0
      (.chars (List.replicate 3966 120)) zero_block = some (3966, f) := by
    simp only [Formatter.format, pmlog_message_block, vmsgformat, List.length_replicate, Option.map_some]
    exact ⟨_, rfl⟩
  obtain ⟨hlen, htext, hpads, hmsglen⟩ := format_eq _ hf
  refine ⟨f, hf, ?_, 3999, (hpads 3999).mpr (by decide), by decide⟩
  rw [wellFormed_iff hlen htext hpads hmsglen]
  decide

end Claims

end pwrapi.log
