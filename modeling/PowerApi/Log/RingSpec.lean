import PowerApi.Lib.BoundedQueue
import PowerApi.Lib.Execution
import PowerApi.Log.Ring

open CyclicBuffer BoundedQueue Execution

namespace pwrapi.log

/-- A block that starts with a message of a fair length: eight bytes at a time, and not less
than its header. -/
structure StartsMessage (msg : Bytes) : Prop where
  le_length : (msglen msg).toNat ≤ msg.length
  dvd : 8 ∣ (msglen msg).toNat
  header_le : 32 ≤ (msglen msg).toNat

instance (msg : Bytes) : Decidable (StartsMessage msg) :=
  decidable_of_iff (_ ∧ _ ∧ _) ⟨fun ⟨a, b, c⟩ => ⟨a, b, c⟩, fun ⟨a, b, c⟩ => ⟨a, b, c⟩⟩

/-- The message that a block starts with. -/
def message (msg : Bytes) : Bytes := msg.take (msglen msg).toNat

/-- The bytes of one message and no more. -/
structure IsMessage (m : Bytes) : Prop where
  length_eq : m.length = (msglen m).toNat
  dvd : 8 ∣ m.length
  header_le : 32 ≤ m.length

/-- What a ring holds, oldest message first. -/
structure Holds (ring : Ringbuf) (msgs : List Bytes) : Prop where
  size_dvd : 8 ∣ ring.size.toNat
  size_lt : ring.size.toNat < 2 ^ 31
  buf_length : ring.buf.length = ring.size.toNat
  rdidx_dvd : 8 ∣ ring.rdidx.toNat
  rdidx_lt : ring.rdidx.toNat < ring.size.toNat
  messages : ∀ m ∈ msgs, IsMessage m
  room : msgs.flatten.length < ring.size.toNat
  wridx : ring.wridx.toNat = advance ring.size.toNat ring.rdidx.toNat msgs.flatten.length
  content : msgs.flatten <+: ring.buf.rotate ring.rdidx.toNat

section Messages

variable {msg m : Bytes}

theorem StartsMessage.length_message (h : StartsMessage msg) :
    (message msg).length = (msglen msg).toNat := by
  rw [message, List.length_take, Nat.min_eq_left h.le_length]

theorem StartsMessage.isMessage (h : StartsMessage msg) : IsMessage (message msg) := by
  have hlen := h.length_message
  have hmsglen : msglen (message msg) = msglen msg := by
    rw [msglen, message, List.take_take, Nat.min_eq_left (by have := h.header_le; omega), msglen]
  exact ⟨by rw [hlen, hmsglen], hlen ▸ h.dvd, hlen ▸ h.header_le⟩

theorem StartsMessage.load_msglen (h : StartsMessage msg) :
    load_u32 msg 0 = some (msglen msg) := by
  have hheader := h.header_le
  have hle := h.le_length
  rw [load_u32, read_eq (by omega)]
  rfl

theorem IsMessage.load_msglen (hm : IsMessage m) {mem : Bytes} {i : ℕ}
    (hmem : m <+: mem.rotate i) (hi : i + 4 ≤ mem.length) :
    load_u32 mem i = some (msglen m) := by
  obtain ⟨rest, hrest⟩ := hmem
  rw [load_u32, read_eq hi, ← take_rotate_of_le (by omega) hi, ← hrest,
    List.take_append_of_le_length (by have := hm.header_le; omega)]
  rfl

theorem length_flatten_dvd {msgs : List Bytes} (h : ∀ m ∈ msgs, IsMessage m) :
    8 ∣ msgs.flatten.length := by
  induction msgs with
  | nil => exact Nat.dvd_zero 8
  | cons m msgs ih =>
    rw [List.flatten_cons, List.length_append]
    exact Nat.dvd_add (h m List.mem_cons_self).dvd
      (ih fun n hn => h n (List.mem_cons_of_mem m hn))

end Messages

namespace Holds

variable {ring : Ringbuf} {msgs : List Bytes} {m : Bytes}

theorem wridx_lt (h : Holds ring msgs) : ring.wridx.toNat < ring.size.toNat := by
  rw [h.wridx]
  exact advance_lt h.rdidx_lt h.room.le

theorem wridx_dvd (h : Holds ring msgs) : 8 ∣ ring.wridx.toNat := by
  have htotal := length_flatten_dvd h.messages
  have hrdidx := h.rdidx_dvd
  have hsize := h.size_dvd
  rw [h.wridx]
  unfold advance
  split_ifs <;> omega

theorem ringspace (h : Holds ring msgs) :
    (mtx_ringspace ring).toNat = space List.length ring.size.toNat msgs := by
  have hsize := h.size_lt
  have hrdidx := h.rdidx_lt
  have hroom := h.room
  have hwridx := h.wridx
  rw [space, total, ← List.length_flatten]
  unfold advance at hwridx
  unfold mtx_ringspace
  simp only [UInt32.lt_iff_toNat_lt]
  split_ifs at hwridx ⊢ <;> simp only [UInt32.toNat_sub, UInt32.toNat_add] <;> omega

/-- An empty ring has its indices equal, and a ring with a message in it has not. -/
theorem wridx_eq_iff (h : Holds ring msgs) : ring.wridx = ring.rdidx ↔ msgs = [] := by
  have hwridx := h.wridx
  have hroom := h.room
  have hrdidx := h.rdidx_lt
  unfold advance at hwridx
  rw [← UInt32.toNat_inj]
  constructor
  · intro heq
    cases msgs with
    | nil => rfl
    | cons m msgs =>
      have hheader := (h.messages m List.mem_cons_self).header_le
      simp only [List.flatten_cons, List.length_append] at hwridx hroom
      split_ifs at hwridx <;> omega
  · rintro rfl
    simp only [List.flatten_nil, List.length_nil] at hwridx
    split_ifs at hwridx <;> omega

theorem getmessage_nil (h : Holds ring []) (keep : Bool) :
    mtx_getmessage ring keep = some (none, ring) :=
  if_pos (h.wridx_eq_iff.mpr rfl)

/-- The ring after its oldest message is gone. -/
theorem tail (h : Holds ring (m :: msgs)) {rdidx : UInt32}
    (hrdidx : rdidx.toNat = advance ring.size.toNat ring.rdidx.toNat m.length) :
    Holds { ring with rdidx } msgs := by
  have hm := h.messages m List.mem_cons_self
  have hroom := h.room
  have hwridx := h.wridx
  have hcontent := h.content
  rw [List.flatten_cons] at hroom hwridx hcontent
  rw [List.length_append] at hroom hwridx
  have hlt : rdidx.toNat < ring.size.toNat :=
    hrdidx ▸ advance_lt h.rdidx_lt (by omega)
  refine ⟨h.size_dvd, h.size_lt, h.buf_length, ?_, hlt,
    fun n hn => h.messages n (List.mem_cons_of_mem m hn), ?_, ?_, ?_⟩
  · have hdvd := h.rdidx_dvd
    have hsize := h.size_dvd
    have hmdvd := hm.dvd
    rw [hrdidx]
    unfold advance
    split_ifs <;> omega
  · exact Nat.lt_of_le_of_lt (Nat.le_add_left _ _) hroom
  · show ring.wridx.toNat = advance ring.size.toNat rdidx.toNat _
    rw [hwridx, hrdidx, advance_advance h.rdidx_lt hroom.le]
  · obtain ⟨free, hfree⟩ := hcontent
    rw [List.append_assoc] at hfree
    rw [hrdidx, ← h.buf_length, rotate_advance, ← hfree, List.rotate_append_length_eq,
      List.append_assoc]
    exact List.prefix_append _ _

theorem copy_out_eq {mem : Bytes} {i : ℕ} {n : UInt32} (h : i + n.toNat ≤ mem.length)
    (keep : Bool) : copy_out keep mem i n = some (if keep then (mem.drop i).take n.toNat else []) := by
  cases keep with
  | false => rfl
  | true => exact read_eq h

theorem getmessage_cons (h : Holds ring (m :: msgs)) (keep : Bool) :
    ∃ rdidx, mtx_getmessage ring keep =
        some (some (if keep then m else []), { ring with rdidx }) ∧
      Holds { ring with rdidx } msgs := by
  have hm := h.messages m List.mem_cons_self
  have hsize := h.size_lt
  have hrdidx := h.rdidx_lt
  have hbuf := h.buf_length
  have hmem : m <+: ring.buf.rotate ring.rdidx.toNat :=
    (List.prefix_append m msgs.flatten).trans (List.flatten_cons ▸ h.content)
  have hmroom : m.length < ring.size.toNat := by
    have hroom := h.room
    rw [List.flatten_cons, List.length_append] at hroom
    omega
  -- both the size and the index are multiples of eight, so the length is in one piece
  have hload : load_u32 ring.buf ring.rdidx.toNat = some (msglen m) := by
    refine hm.load_msglen hmem ?_
    have hdvd := h.rdidx_dvd
    have hsdvd := h.size_dvd
    omega
  have hne : ring.wridx ≠ ring.rdidx := fun heq => List.cons_ne_nil m msgs (h.wridx_eq_iff.mp heq)
  have hmlen := hm.length_eq
  have htake := List.prefix_iff_eq_take.mp hmem
  rw [mtx_getmessage, if_neg hne, hload]
  by_cases hwrap : ring.rdidx + msglen m ≥ ring.size
  · have hge : ring.size.toNat ≤ ring.rdidx.toNat + (msglen m).toNat := by
      rw [ge_iff_le, UInt32.le_iff_toNat_le, UInt32.toNat_add] at hwrap
      omega
    have hlen : (ring.size - ring.rdidx).toNat = ring.size.toNat - ring.rdidx.toNat := by
      rw [UInt32.toNat_sub]
      omega
    have hrest : (msglen m - (ring.size - ring.rdidx)).toNat =
        m.length - (ring.size.toNat - ring.rdidx.toNat) := by
      rw [UInt32.toNat_sub, hlen]
      omega
    refine ⟨msglen m - (ring.size - ring.rdidx), ?_, h.tail ?_⟩
    · simp only [Option.bind_eq_bind, Option.bind_some, if_pos hwrap]
      rw [copy_out_eq (by omega), copy_out_eq (by omega)]
      cases keep with
      | false => rfl
      | true =>
        rw [take_rotate_of_ge (by omega) (by omega) (by omega)] at htake
        simp only [Option.bind_some, if_true, hlen, hrest, List.drop_zero]
        rw [List.take_of_length_le (by rw [List.length_drop]; omega), ← hbuf, ← htake]
    · rw [hrest, advance, if_neg (by omega)]
      omega
  · have hlt : ring.rdidx.toNat + (msglen m).toNat < ring.size.toNat := by
      rw [ge_iff_le, UInt32.le_iff_toNat_le, UInt32.toNat_add] at hwrap
      omega
    refine ⟨ring.rdidx + msglen m, ?_, h.tail ?_⟩
    · simp only [Option.bind_eq_bind, Option.bind_some, if_neg hwrap]
      rw [copy_out_eq (by omega)]
      cases keep with
      | false => rfl
      | true =>
        rw [take_rotate_of_le (by omega) (by omega)] at htake
        simp only [Option.bind_some, if_true]
        rw [← hmlen, ← htake]
    · rw [UInt32.toNat_add, advance, if_pos (by omega)]
      omega

/-- A message has bytes, so there are fewer of them than places. -/
theorem length_lt (h : Holds ring msgs) : msgs.length < ring.size.toNat := by
  have hle : ∀ msgs : List Bytes, (∀ m ∈ msgs, IsMessage m) → msgs.length ≤ msgs.flatten.length := by
    intro msgs hmsgs
    induction msgs with
    | nil => exact Nat.le_refl 0
    | cons m msgs ih =>
      have hm := (hmsgs m List.mem_cons_self).header_le
      have hrest := ih fun n hn => hmsgs n (List.mem_cons_of_mem m hn)
      rw [List.flatten_cons, List.length_append, List.length_cons]
      omega
  exact Nat.lt_of_le_of_lt (hle msgs h.messages) h.room

theorem discard_eq {need : UInt32} (h : Holds ring msgs) (hneed : need.toNat < ring.size.toNat)
    {fuel : ℕ} (hfuel : msgs.length < fuel) :
    ∃ rdidx, discard fuel need ring = some { ring with rdidx } ∧
      Holds { ring with rdidx }
        (msgs.drop (excess List.length ring.size.toNat need.toNat msgs)) := by
  induction msgs generalizing ring fuel with
  | nil =>
    obtain ⟨fuel, rfl⟩ := Nat.exists_eq_succ_of_ne_zero (Nat.ne_of_gt hfuel)
    refine ⟨ring.rdidx, if_neg ?_, h⟩
    rw [UInt32.le_iff_toNat_le, h.ringspace]
    exact Nat.not_le.mpr hneed
  | cons m msgs ih =>
    obtain ⟨fuel, rfl⟩ := Nat.exists_eq_succ_of_ne_zero (Nat.ne_of_gt (Nat.zero_lt_of_lt hfuel))
    by_cases hle : mtx_ringspace ring ≤ need
    · obtain ⟨rdidx, hget, htail⟩ := h.getmessage_cons false
      obtain ⟨rdidx', hdiscard, hholds⟩ := ih htail hneed (Nat.lt_of_succ_lt_succ hfuel)
      refine ⟨rdidx', ?_, ?_⟩
      · rw [discard, if_pos hle, hget]
        exact hdiscard
      · rw [UInt32.le_iff_toNat_le, h.ringspace] at hle
        rw [excess_cons_of_le hle]
        exact hholds
    · refine ⟨ring.rdidx, if_neg hle, ?_⟩
      rw [UInt32.le_iff_toNat_le, h.ringspace] at hle
      rw [excess_of_lt (Nat.not_le.mp hle)]
      exact h

/-- The ring after a message is written where its free space starts. -/
theorem snoc (h : Holds ring msgs) (hm : IsMessage m) {wridx : UInt32} {buf : Bytes}
    (hroom : msgs.flatten.length + m.length < ring.size.toNat)
    (hwridx : wridx.toNat = advance ring.size.toNat ring.wridx.toNat m.length)
    (hbuf : buf.length = ring.buf.length)
    (hwrite : buf.rotate ring.wridx.toNat = m ++ (ring.buf.rotate ring.wridx.toNat).drop m.length) :
    Holds { ring with wridx, buf } (msgs ++ [m]) := by
  have hflatten : (msgs ++ [m]).flatten = msgs.flatten ++ m := by
    rw [List.flatten_append, List.flatten_singleton]
  refine ⟨h.size_dvd, h.size_lt, hbuf.trans h.buf_length, h.rdidx_dvd, h.rdidx_lt, ?_, ?_, ?_, ?_⟩
  · intro n hn
    rcases List.mem_append.mp hn with hn | hn
    · exact h.messages n hn
    · exact List.mem_singleton.mp hn ▸ hm
  · rw [hflatten, List.length_append]
    exact hroom
  · show wridx.toNat = advance ring.size.toNat ring.rdidx.toNat _
    rw [hwridx, h.wridx, advance_advance h.rdidx_lt hroom.le, hflatten, List.length_append]
  · rw [hflatten]
    refine prefix_rotate_of_write hbuf (h.buf_length ▸ hroom.le) h.content ?_
    rw [h.buf_length, ← h.wridx]
    exact hwrite

theorem putmessage (h : Holds ring msgs) {msg : Bytes} (hmsg : StartsMessage msg)
    (hsize : msglen msg < ring.size) :
    ∃ ring', mtx_putmessage ring msg = some ring' ∧ ring'.size = ring.size ∧
      Holds ring' (put List.length ring.size.toNat msgs (message msg)) := by
  have hm := hmsg.isMessage
  have hlen := hmsg.length_message
  have hle := hmsg.le_length
  rw [UInt32.lt_iff_toNat_lt] at hsize
  obtain ⟨rdidx, hdiscard, hkept⟩ := h.discard_eq hsize (Nat.lt_succ_of_lt h.length_lt)
  have hroom := @lt_space_drop_excess _ List.length _ _ hsize msgs
  rw [mtx_putmessage, hmsg.load_msglen, put, hlen]
  simp only [Option.bind_eq_bind, Option.bind_some, hdiscard]
  generalize msgs.drop _ = kept at hkept hroom ⊢
  rw [space, total, ← List.length_flatten] at hroom
  have hwridx := hkept.wridx_lt
  have hbuf := h.buf_length
  have hlt := h.size_lt
  simp only at hwridx
  by_cases hwrap : ring.wridx + msglen msg ≥ ring.size
  · rw [if_pos hwrap]
    rw [ge_iff_le, UInt32.le_iff_toNat_le, UInt32.toNat_add] at hwrap
    have hpart : (ring.size - ring.wridx).toNat = ring.size.toNat - ring.wridx.toNat := by
      rw [UInt32.toNat_sub]
      omega
    have hrest : (msglen msg - (ring.size - ring.wridx)).toNat =
        (msglen msg).toNat - (ring.size.toNat - ring.wridx.toNat) := by
      rw [UInt32.toNat_sub, hpart]
      omega
    rw [hpart, hrest]
    generalize hn : ring.size.toNat - ring.wridx.toNat = n
    have hparts : (message msg).take n ++ (message msg).drop n = message msg :=
      List.take_append_drop n _
    have hfirst : read msg 0 n = some ((message msg).take n) := by
      rw [read_eq (by omega), List.drop_zero, message, List.take_take, Nat.min_eq_left (by omega)]
    have hsecond : read msg n ((msglen msg).toNat - n) = some ((message msg).drop n) := by
      rw [read_eq (by omega), message, List.drop_take]
    have htake : ((message msg).take n).length = n := by
      rw [List.length_take]
      omega
    have hdrop : ((message msg).drop n).length = (msglen msg).toNat - n := by
      rw [List.length_drop, hlen]
    have hwrite := @rotate_write_of_ge _ ring.buf ((message msg).take n) ring.wridx.toNat
      ((message msg).drop n) (by omega) (by omega)
    rw [hparts, htake, hdrop] at hwrite
    simp only [hfirst, hsecond, Option.bind_some]
    rw [write_eq (by omega), htake, List.drop_of_length_le (by omega), List.append_nil]
    simp only [Option.bind_some]
    rw [write_eq (by simp only [List.length_append, List.length_take]; omega), Nat.zero_add,
      List.take_zero, List.nil_append, hdrop]
    refine ⟨_, rfl, rfl, hkept.snoc hm ?_ ?_ ?_ ?_⟩
    · simp only
      omega
    · rw [hrest, advance, if_neg (by simp only; omega)]
      simp only
      omega
    · simp only [List.length_append, List.length_take, List.length_drop]
      omega
    · simp only
      rw [hwrite, hlen]
      congr 2
      omega
  · rw [if_neg hwrap]
    rw [ge_iff_le, UInt32.le_iff_toNat_le, UInt32.toNat_add] at hwrap
    rw [read_eq (by omega), List.drop_zero]
    simp only [Option.bind_some]
    rw [← message, write_eq (by omega)]
    refine ⟨_, rfl, rfl, hkept.snoc hm ?_ ?_ ?_ (rotate_write_of_le (by omega))⟩
    · simp only
      omega
    · rw [UInt32.toNat_add, advance, if_pos (by simp only; omega)]
      simp only
      omega
    · simp only [List.length_append, List.length_take, List.length_drop]
      omega

end Holds

end pwrapi.log
