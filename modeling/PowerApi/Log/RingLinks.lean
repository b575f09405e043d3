import Mathlib.Algebra.BigOperators.Ring.List
import PowerApi.Log.Format
import PowerApi.Log.RingSpec

open CyclicBuffer

namespace pwrapi.log

/-- A length that a message can have. -/
structure FairLength (l : ℕ) : Prop where
  dvd : 8 ∣ l
  header_le : MSG_HDR_SIZE ≤ l
  le : l ≤ sizeof_msgblk

/-- A block that starts with a message no longer than a `msgblk_t`. -/
structure LegalMessage (msg : Bytes) : Prop where
  starts : StartsMessage msg
  le : (msglen msg).toNat ≤ sizeof_msgblk

/-- A ring into which every message fits once it is empty. A message that reaches the end of the
ring has to find it there: its 32-bit sum of an index and a length may only overflow where the
buffer goes on after the ring. -/
structure Roomy (ring : Ringbuf) : Prop where
  size_dvd : 8 ∣ ring.size.toNat
  lt_size : sizeof_msgblk < ring.size.toNat
  size_le : ring.size.toNat ≤ ring.buf.length
  ends : ring.size.toNat + sizeof_msgblk ≤ 2 ^ 32 ∨ 2 ^ 32 + sizeof_msgblk ≤ ring.buf.length

/-- The messages from an index on have the given lengths, with none of their headers around the
end. -/
def Follow (buf : Bytes) : ℕ → List ℕ → Prop
  | _, [] => True
  | p, l :: ls => (load_u32 buf p).map UInt32.toNat = some l ∧ Follow buf (p + l) ls

/-- Where a message that reaches the end of the ring at `p` ends: the sum of 32 bits is compared
with the size, and is itself the index where it overflows. -/
def around (size p : ℕ) : ℕ := if p < 2 ^ 32 then p - size else p - 2 ^ 32

/-- The messages of a ring that are still to be read, by their lengths. They stand one after
another, or one of them reaches the end of the ring and the ones after it are in front. -/
inductive Linked (ring : Ringbuf) (n : ℕ) : Prop where
  | straight (ls : List ℕ) (count : ls.length = n) (fair : ∀ l ∈ ls, FairLength l)
      (dvd : 8 ∣ ring.rdidx.toNat) (follow : Follow ring.buf ring.rdidx.toNat ls)
      (wridx : ring.wridx.toNat = ring.rdidx.toNat + ls.sum) (lt : ring.wridx.toNat < ring.size.toNat)
  | wrapped (ls : List ℕ) (l : ℕ) (ls' : List ℕ) (count : ls.length + 1 + ls'.length = n)
      (fair : ∀ k ∈ ls ++ l :: ls', FairLength k) (dvd : 8 ∣ ring.rdidx.toNat)
      (follow : Follow ring.buf ring.rdidx.toNat (ls ++ [l]))
      (inside : ring.rdidx.toNat + ls.sum < ring.size.toNat)
      (reaches : ring.size.toNat ≤ ring.rdidx.toNat + ls.sum + l)
      (front : Follow ring.buf (around ring.size.toNat (ring.rdidx.toNat + ls.sum + l)) ls')
      (wridx : ring.wridx.toNat = around ring.size.toNat (ring.rdidx.toNat + ls.sum + l) + ls'.sum)
      (lt : ring.wridx.toNat < ring.rdidx.toNat)

section Headers

variable {buf buf' xs : Bytes} {p i l : ℕ} {ls ls' : List ℕ}

theorem follow_append : Follow buf p (ls ++ ls') ↔ Follow buf p ls ∧ Follow buf (p + ls.sum) ls' := by
  induction ls generalizing p with
  | nil => simp [Follow]
  | cons l ls ih => simp only [List.cons_append, Follow, ih, List.sum_cons, Nat.add_assoc, and_assoc]

theorem load_of_write_of_disjoint (h : write buf i xs = some buf')
    (hp : p + 4 ≤ i ∨ i + xs.length ≤ p) : load_u32 buf' p = load_u32 buf p := by
  rw [load_u32, load_u32, read_of_write_of_disjoint h hp]

/-- A write apart from messages leaves their headers alone. -/
theorem Follow.of_write (hfollow : Follow buf p ls) (hfair : ∀ l ∈ ls, FairLength l)
    (h : write buf i xs = some buf') (hp : p + ls.sum ≤ i ∨ i + xs.length ≤ p) : Follow buf' p ls := by
  induction ls generalizing p with
  | nil => trivial
  | cons l ls ih =>
    have hheader := (hfair l List.mem_cons_self).header_le
    rw [List.sum_cons] at hp
    obtain ⟨hload, hrest⟩ := hfollow
    refine ⟨?_, ih hrest (fun k hk => hfair k (List.mem_cons_of_mem l hk)) (by omega)⟩
    rw [load_of_write_of_disjoint h (by obtain ⟨-, hsize, -⟩ := sizes; omega)]
    exact hload

/-- The header of a message is where it was written, if it is in one piece. -/
theorem load_of_write {n : ℕ} {msg : Bytes} (hmsg : StartsMessage msg) (hn : 4 ≤ n)
    (h : write buf i ((message msg).take n) = some buf') :
    (load_u32 buf' i).map UInt32.toNat = some (msglen msg).toNat := by
  have hheader := hmsg.header_le
  have hle := hmsg.le_length
  rw [load_u32, read_of_write h (by
    rw [List.length_take, hmsg.length_message]
    omega), message, List.take_take, List.take_take, Nat.min_eq_left hn, Nat.min_eq_left (by omega)]
  rfl

theorem dvd_sum (hfair : ∀ l ∈ ls, FairLength l) : 8 ∣ ls.sum := by
  apply List.dvd_sum
  intro l hl
  exact (hfair l hl).dvd

theorem length_le_sum (hfair : ∀ l ∈ ls, FairLength l) : MSG_HDR_SIZE * ls.length ≤ ls.sum := by
  induction ls with
  | nil => exact Nat.zero_le _
  | cons l ls ih =>
    have hheader := (hfair l List.mem_cons_self).header_le
    have hrest := ih fun k hk => hfair k (List.mem_cons_of_mem l hk)
    rw [List.length_cons, List.sum_cons, Nat.mul_succ]
    omega

end Headers

section Space

variable {ring : Ringbuf}

theorem ringspace_straight (hle : ring.rdidx.toNat ≤ ring.wridx.toNat)
    (hlt : ring.wridx.toNat < ring.size.toNat) :
    (mtx_ringspace ring).toNat = ring.size.toNat - (ring.wridx.toNat - ring.rdidx.toNat) := by
  have hsize := ring.size.toNat_lt
  rw [mtx_ringspace, if_neg (by rw [UInt32.lt_iff_toNat_lt]; omega), UInt32.toNat_sub, UInt32.toNat_sub]
  omega

theorem ringspace_wrapped (hlt : ring.wridx.toNat < ring.rdidx.toNat)
    (hrdidx : ring.rdidx.toNat < ring.size.toNat) :
    (mtx_ringspace ring).toNat = ring.rdidx.toNat - ring.wridx.toNat := by
  have hsize := ring.size.toNat_lt
  rw [mtx_ringspace, if_pos (by rw [UInt32.lt_iff_toNat_lt]; omega), UInt32.toNat_sub, UInt32.toNat_sub,
    UInt32.toNat_add]
  omega

end Space

section Steps

variable {ring : Ringbuf} {n : ℕ}

/-- The index behind a message at `p`. -/
def behind (size p : ℕ) : ℕ := if p < size then p else around size p

theorem copy_out_some {mem : Bytes} {i : ℕ} {len : UInt32} (h : i + len.toNat ≤ mem.length) (keep : Bool) :
    ∃ bytes, copy_out keep mem i len = some bytes := ⟨_, Holds.copy_out_eq h keep⟩

/-- A message whose header is at the read index is there to be read, wherever it ends. -/
theorem getmessage_at {l : ℕ} (hl : l ≤ ring.size.toNat) (hsize : ring.size.toNat ≤ ring.buf.length)
    (hends : ring.rdidx.toNat + l < 2 ^ 32 ∨ ring.rdidx.toNat + l ≤ ring.buf.length)
    (hload : (load_u32 ring.buf ring.rdidx.toNat).map UInt32.toNat = some l)
    (hne : ring.wridx ≠ ring.rdidx) (hlt : ring.rdidx.toNat < ring.size.toNat) (keep : Bool) :
    ∃ msg rdidx, mtx_getmessage ring keep = some (some msg, { ring with rdidx }) ∧
      rdidx.toNat = behind ring.size.toNat (ring.rdidx.toNat + l) := by
  obtain ⟨len, hlen, rfl⟩ := Option.map_eq_some_iff.mp hload
  have hbound := ring.size.toNat_lt
  rw [mtx_getmessage, if_neg hne, hlen, behind, around]
  simp only [Option.bind_eq_bind, Option.bind_some]
  by_cases hwrap : ring.rdidx + len ≥ ring.size
  · have hreach : ring.size.toNat ≤ ring.rdidx.toNat + len.toNat ∧
        ring.rdidx.toNat + len.toNat < 2 ^ 32 := by
      rw [ge_iff_le, UInt32.le_iff_toNat_le, UInt32.toNat_add] at hwrap
      omega
    have hpart : (ring.size - ring.rdidx).toNat = ring.size.toNat - ring.rdidx.toNat := by
      rw [UInt32.toNat_sub]
      omega
    have hrest : (len - (ring.size - ring.rdidx)).toNat =
        ring.rdidx.toNat + len.toNat - ring.size.toNat := by
      rw [UInt32.toNat_sub, hpart]
      omega
    obtain ⟨part, hpart⟩ := @copy_out_some ring.buf ring.rdidx.toNat (ring.size - ring.rdidx) (by omega) keep
    obtain ⟨rest, hsecond⟩ := @copy_out_some ring.buf 0 (len - (ring.size - ring.rdidx)) (by omega) keep
    rw [if_pos hwrap, hpart, hsecond, if_neg (by omega), if_pos (by omega)]
    exact ⟨_, _, rfl, hrest⟩
  · rw [ge_iff_le, UInt32.le_iff_toNat_le, UInt32.toNat_add] at hwrap
    obtain ⟨msg, hmsg⟩ := @copy_out_some ring.buf ring.rdidx.toNat len (by omega) keep
    rw [if_neg (by rwa [ge_iff_le, UInt32.le_iff_toNat_le, UInt32.toNat_add]), hmsg]
    refine ⟨_, _, rfl, ?_⟩
    rw [UInt32.toNat_add]
    split_ifs <;> omega

theorem Roomy.getmessage (hring : Roomy ring) {l : ℕ} (hfair : FairLength l)
    (hload : (load_u32 ring.buf ring.rdidx.toNat).map UInt32.toNat = some l)
    (hne : ring.wridx ≠ ring.rdidx) (hlt : ring.rdidx.toNat < ring.size.toNat) (keep : Bool) :
    ∃ msg rdidx, mtx_getmessage ring keep = some (some msg, { ring with rdidx }) ∧
      rdidx.toNat = behind ring.size.toNat (ring.rdidx.toNat + l) := by
  have hle := hfair.le
  have hgt := hring.lt_size
  have hends := hring.ends
  have hbound := ring.size.toNat_lt
  exact getmessage_at (by omega) hring.size_le (by omega) hload hne hlt keep

/-- A ring with no message left is empty. -/
theorem Linked.wridx_eq (h : Linked ring 0) : ring.wridx = ring.rdidx := by
  cases h with
  | straight ls count fair dvd follow wridx lt =>
    obtain rfl := List.length_eq_zero_iff.mp count
    exact UInt32.toNat_inj.mp wridx
  | wrapped ls l ls' count => omega

theorem Linked.getmessage_zero (h : Linked ring 0) (keep : Bool) :
    mtx_getmessage ring keep = some (none, ring) := if_pos h.wridx_eq

/-- A ring with a message left gives it, and keeps the ones after it. -/
theorem Linked.getmessage_succ (hring : Roomy ring) (h : Linked ring (n + 1)) (keep : Bool) :
    ∃ msg rdidx, mtx_getmessage ring keep = some (some msg, { ring with rdidx }) ∧
      Linked { ring with rdidx } n := by
  obtain ⟨hmax, hheader, hlegal⟩ := sizes
  cases h with
  | straight ls count fair dvd follow wridx lt =>
    cases ls with
    | nil => cases count
    | cons l ls =>
      have hl := fair l List.mem_cons_self
      have hpositive := hl.header_le
      have hdvd := hl.dvd
      rw [List.sum_cons] at wridx
      obtain ⟨msg, rdidx, hget, hrdidx⟩ := hring.getmessage hl follow.1
        (by rw [ne_eq, ← UInt32.toNat_inj]; omega) (by omega) keep
      rw [behind, if_pos (by omega)] at hrdidx
      refine ⟨msg, rdidx, hget, .straight ls (Nat.succ.inj count)
        (fun k hk => fair k (List.mem_cons_of_mem l hk)) ?_ ?_ ?_ lt⟩
      · simp only [hrdidx]
        omega
      · simp only [hrdidx]
        exact follow.2
      · simp only [hrdidx]
        omega
  | wrapped ls l ls' count fair dvd follow inside reaches front wridx lt =>
    have hl := fair l (List.mem_append_right ls List.mem_cons_self)
    have hpositive := hl.header_le
    have hdvd := hl.dvd
    have hne : ring.wridx ≠ ring.rdidx := by
      rw [ne_eq, ← UInt32.toNat_inj]
      omega
    cases ls with
    | nil =>
      -- the message that reaches the end is the oldest
      rw [List.sum_nil, Nat.add_zero] at inside reaches front wridx
      obtain ⟨msg, rdidx, hget, hrdidx⟩ := hring.getmessage hl follow.1 hne inside keep
      rw [behind, if_neg (by omega)] at hrdidx
      refine ⟨msg, rdidx, hget, .straight ls' ?_ (fun k hk => fair k (List.mem_cons_of_mem l hk)) ?_ ?_ ?_ ?_⟩
      · rw [List.length_nil] at count
        omega
      · have hsize := hring.size_dvd
        simp only [hrdidx, around]
        split_ifs <;> omega
      · simp only [hrdidx]
        exact front
      · simp only [hrdidx]
        exact wridx
      · simp only
        omega
    | cons k ls =>
      have hk := fair k List.mem_cons_self
      have hkdvd := hk.dvd
      rw [List.sum_cons, ← Nat.add_assoc] at inside reaches front wridx
      obtain ⟨msg, rdidx, hget, hrdidx⟩ := hring.getmessage hk follow.1 hne (by omega) keep
      rw [behind, if_pos (by omega)] at hrdidx
      refine ⟨msg, rdidx, hget, .wrapped ls l ls' ?_ (fun j hj => fair j (List.mem_cons_of_mem k hj))
        ?_ ?_ ?_ ?_ ?_ ?_ ?_⟩
      · rw [List.length_cons] at count
        omega
      all_goals simp only [hrdidx]
      · omega
      · exact follow.2
      · exact inside
      · exact reaches
      · exact front
      · exact wridx
      · omega

/-- A message takes up a header's bytes, so there are not as many of them as places. -/
theorem Linked.count_lt (hring : Roomy ring) (h : Linked ring n) : n < ring.size.toNat := by
  obtain ⟨hmax, hheader, hlegal⟩ := sizes
  have hsize := hring.lt_size
  cases h with
  | straight ls count fair dvd follow wridx lt =>
    have hsum := length_le_sum fair
    rw [hheader] at hsum
    omega
  | wrapped ls l ls' count fair dvd follow inside reaches front wridx lt =>
    have hsum := length_le_sum fun k hk => fair k (List.mem_append_left _ hk)
    have hfront := length_le_sum fun k hk => fair k (List.mem_append_right ls (List.mem_cons_of_mem l hk))
    rw [hheader] at hsum hfront
    omega

/-- The loop ends, at the latest with no message left. -/
theorem Linked.discard (hring : Roomy ring) (h : Linked ring n) {need : UInt32}
    (hneed : need.toNat ≤ sizeof_msgblk) {fuel : ℕ} (hfuel : n < fuel) :
    ∃ n' rdidx, log.discard fuel need ring = some { ring with rdidx } ∧ Linked { ring with rdidx } n' ∧
      need < mtx_ringspace { ring with rdidx } := by
  induction n generalizing ring fuel with
  | zero =>
    obtain ⟨fuel, rfl⟩ := Nat.exists_eq_succ_of_ne_zero (Nat.ne_of_gt hfuel)
    have hsize := hring.lt_size
    have hspace : need < mtx_ringspace ring := by
      rw [UInt32.lt_iff_toNat_lt, mtx_ringspace, h.wridx_eq, if_neg (by simp), UInt32.sub_self,
        UInt32.sub_zero]
      omega
    exact ⟨0, ring.rdidx, if_neg (UInt32.not_le.mpr hspace), h, hspace⟩
  | succ n ih =>
    obtain ⟨fuel, rfl⟩ := Nat.exists_eq_succ_of_ne_zero (Nat.ne_of_gt (Nat.zero_lt_of_lt hfuel))
    by_cases hle : mtx_ringspace ring ≤ need
    · obtain ⟨msg, rdidx, hget, hrest⟩ := h.getmessage_succ hring false
      have hkept : Roomy { ring with rdidx } := ⟨hring.size_dvd, hring.lt_size, hring.size_le, hring.ends⟩
      obtain ⟨n', rdidx', hdiscard, hlinked, hspace⟩ := ih hkept hrest (Nat.lt_of_succ_lt_succ hfuel)
      refine ⟨n', rdidx', ?_, hlinked, hspace⟩
      rw [log.discard, if_pos hle, hget]
      exact hdiscard
    · exact ⟨n + 1, ring.rdidx, if_neg hle, h, UInt32.not_le.mp hle⟩

end Steps

section Puts

variable {ring kept : Ringbuf} {msg : Bytes} {n : ℕ}

theorem putmessage_one_piece (hmsg : StartsMessage msg)
    (hdiscard : discard (ring.size.toNat + 1) (msglen msg) ring = some kept)
    (hwrap : ¬ kept.wridx + msglen msg ≥ kept.size)
    (hroom : kept.wridx.toNat + (msglen msg).toNat ≤ kept.buf.length) :
    ∃ buf, write kept.buf kept.wridx.toNat (message msg) = some buf ∧
      mtx_putmessage ring msg = some { kept with buf, wridx := kept.wridx + msglen msg } := by
  have hlength := hmsg.length_message
  have hle := hmsg.le_length
  obtain ⟨buf, hbuf⟩ : ∃ buf, write kept.buf kept.wridx.toNat (message msg) = some buf :=
    ⟨_, write_eq (by omega)⟩
  have hread : read msg 0 (msglen msg).toNat = some (message msg) := by
    rw [read_eq (by omega)]
    rfl
  refine ⟨buf, hbuf, ?_⟩
  rw [mtx_putmessage, hmsg.load_msglen]
  simp only [Option.bind_eq_bind, Option.bind_some, hdiscard, if_neg hwrap, hread, hbuf]

theorem putmessage_two_pieces (hmsg : StartsMessage msg)
    (hdiscard : discard (ring.size.toNat + 1) (msglen msg) ring = some kept)
    (hwrap : kept.wridx + msglen msg ≥ kept.size)
    (hsize : kept.size.toNat ≤ kept.buf.length) (hlt : kept.wridx.toNat < kept.size.toNat)
    (hreach : kept.size.toNat ≤ kept.wridx.toNat + (msglen msg).toNat)
    (hshort : (msglen msg).toNat ≤ kept.size.toNat) :
    ∃ buf buf' wridx,
      write kept.buf kept.wridx.toNat ((message msg).take (kept.size.toNat - kept.wridx.toNat)) = some buf ∧
      write buf 0 ((message msg).drop (kept.size.toNat - kept.wridx.toNat)) = some buf' ∧
      wridx.toNat = kept.wridx.toNat + (msglen msg).toNat - kept.size.toNat ∧
      mtx_putmessage ring msg = some { kept with buf := buf', wridx } := by
  have hlength := hmsg.length_message
  have hle := hmsg.le_length
  have hpart : (kept.size - kept.wridx).toNat = kept.size.toNat - kept.wridx.toNat := by
    rw [UInt32.toNat_sub]
    have hbound := kept.size.toNat_lt
    omega
  have hrest : (msglen msg - (kept.size - kept.wridx)).toNat =
      kept.wridx.toNat + (msglen msg).toNat - kept.size.toNat := by
    rw [UInt32.toNat_sub, hpart]
    have hbound := (msglen msg).toNat_lt
    omega
  obtain ⟨buf, hbuf⟩ : ∃ buf, write kept.buf kept.wridx.toNat
      ((message msg).take (kept.size.toNat - kept.wridx.toNat)) = some buf :=
    ⟨_, write_eq (by rw [List.length_take]; omega)⟩
  have hsame := length_of_write hbuf
  obtain ⟨buf', hbuf'⟩ : ∃ buf', write buf 0
      ((message msg).drop (kept.size.toNat - kept.wridx.toNat)) = some buf' :=
    ⟨_, write_eq (by rw [List.length_drop]; omega)⟩
  have hfirst : read msg 0 (kept.size.toNat - kept.wridx.toNat) =
      some ((message msg).take (kept.size.toNat - kept.wridx.toNat)) := by
    rw [read_eq (by omega), List.drop_zero, message, List.take_take, Nat.min_eq_left (by omega)]
  have hsecond : read msg (kept.size.toNat - kept.wridx.toNat)
      (kept.wridx.toNat + (msglen msg).toNat - kept.size.toNat) =
      some ((message msg).drop (kept.size.toNat - kept.wridx.toNat)) := by
    rw [read_eq (by omega), message, List.drop_take]
    congr 2
    omega
  refine ⟨buf, buf', _, hbuf, hbuf', hrest, ?_⟩
  rw [mtx_putmessage, hmsg.load_msglen]
  simp only [Option.bind_eq_bind, Option.bind_some, hdiscard, if_pos hwrap, hpart, hrest, hfirst, hbuf,
    hsecond, hbuf']

theorem FairLength.of_legal (hmsg : LegalMessage msg) : FairLength (msglen msg).toNat :=
  ⟨hmsg.starts.dvd, hmsg.starts.header_le, hmsg.le⟩

theorem fair_snoc {ls : List ℕ} {l : ℕ} (hfair : ∀ k ∈ ls, FairLength k) (hl : FairLength l) :
    ∀ k ∈ ls ++ [l], FairLength k := by
  intro k hk
  rcases List.mem_append.mp hk with hk | hk
  · exact hfair k hk
  · exact List.mem_singleton.mp hk ▸ hl

theorem load_of_put (hmsg : LegalMessage msg) {buf buf' : Bytes} {p : ℕ}
    (hbuf : write buf p (message msg) = some buf') :
    (load_u32 buf' p).map UInt32.toNat = some (msglen msg).toNat := by
  have hlength := hmsg.starts.length_message
  have hheader := hmsg.starts.header_le
  rw [← List.take_length (l := message msg)] at hbuf
  exact load_of_write hmsg.starts (by omega) hbuf

/-- What a put is about to find: the messages it keeps leave room for its own. -/
structure Ready (ring kept : Ringbuf) (msg : Bytes) : Prop where
  roomy : Roomy kept
  legal : LegalMessage msg
  kept_eq : discard (ring.size.toNat + 1) (msglen msg) ring = some kept
  room : (msglen msg).toNat < (mtx_ringspace kept).toNat

/-- A put has gone through and left one message more. -/
def Went (ring kept : Ringbuf) (msg : Bytes) (n : ℕ) : Prop :=
  ∃ ring', mtx_putmessage ring msg = some ring' ∧ ring'.size = kept.size ∧
    ring'.buf.length = kept.buf.length ∧ Linked ring' (n + 1)

theorem toNat_wridx_add (ring : Ringbuf) (msg : Bytes) :
    (ring.wridx + msglen msg).toNat = (ring.wridx.toNat + (msglen msg).toNat) % 2 ^ 32 :=
  UInt32.toNat_add _ _

variable {ls : List ℕ}

/-- A message behind the others that ends before the ring does. -/
theorem Ready.put_inside (h : Ready ring kept msg) (count : ls.length = n) (fair : ∀ l ∈ ls, FairLength l)
    (dvd : 8 ∣ kept.rdidx.toNat) (follow : Follow kept.buf kept.rdidx.toNat ls)
    (wridx : kept.wridx.toNat = kept.rdidx.toNat + ls.sum)
    (hinside : kept.wridx.toNat + (msglen msg).toNat < kept.size.toNat) : Went ring kept msg n := by
  have hsum := toNat_wridx_add kept msg
  have hsize := kept.size.toNat_lt
  have hroom := h.roomy.size_le
  have hwrap : ¬ kept.wridx + msglen msg ≥ kept.size := by
    rw [ge_iff_le, UInt32.le_iff_toNat_le]
    omega
  obtain ⟨buf, hbuf, hput⟩ := putmessage_one_piece h.legal.starts h.kept_eq hwrap (by omega)
  refine ⟨_, hput, rfl, length_of_write hbuf, .straight (ls ++ [(msglen msg).toNat]) (by simp [count])
    (fair_snoc fair (.of_legal h.legal)) dvd (follow_append.mpr ⟨?_, ?_, trivial⟩) ?_ ?_⟩
  · exact follow.of_write fair hbuf (by omega)
  · simp only [← wridx]
    exact load_of_put h.legal hbuf
  · simp only [List.sum_append, List.sum_singleton]
    omega
  · simp only
    omega

/-- A message behind the others that goes on at the start of the ring. -/
theorem Ready.put_around (h : Ready ring kept msg) (count : ls.length = n) (fair : ∀ l ∈ ls, FairLength l)
    (dvd : 8 ∣ kept.rdidx.toNat) (follow : Follow kept.buf kept.rdidx.toNat ls)
    (wridx : kept.wridx.toNat = kept.rdidx.toNat + ls.sum) (lt : kept.wridx.toNat < kept.size.toNat)
    (hreach : kept.size.toNat ≤ kept.wridx.toNat + (msglen msg).toNat)
    (hsmall : kept.wridx.toNat + (msglen msg).toNat < 2 ^ 32) : Went ring kept msg n := by
  have hsum := toNat_wridx_add kept msg
  have hroom := h.roomy.size_le
  have hspace := h.room
  have hlength := h.legal.starts.length_message
  have hsdvd := h.roomy.size_dvd
  have hlsdvd := dvd_sum fair
  rw [ringspace_straight (by omega) lt] at hspace
  have hwrap : kept.wridx + msglen msg ≥ kept.size := by
    rw [ge_iff_le, UInt32.le_iff_toNat_le]
    omega
  obtain ⟨buf, buf', next, hbuf, hbuf', hnext, hput⟩ :=
    putmessage_two_pieces h.legal.starts h.kept_eq hwrap hroom lt hreach (by omega)
  have hfirst : ((message msg).take (kept.size.toNat - kept.wridx.toNat)).length =
      kept.size.toNat - kept.wridx.toNat := by
    rw [List.length_take]
    omega
  have hsecond : ((message msg).drop (kept.size.toNat - kept.wridx.toNat)).length = next.toNat := by
    rw [List.length_drop]
    omega
  have haround : around kept.size.toNat (kept.rdidx.toNat + ls.sum + (msglen msg).toNat) = next.toNat := by
    rw [around, ← wridx, if_pos hsmall, hnext]
  refine ⟨_, hput, rfl, (length_of_write hbuf').trans (length_of_write hbuf),
    .wrapped ls (msglen msg).toNat [] (by simp [count]) (fair_snoc fair (.of_legal h.legal)) dvd
      (follow_append.mpr ⟨?_, ?_, trivial⟩) (wridx ▸ lt) (wridx ▸ hreach) trivial ?_ ?_⟩
  · exact (follow.of_write fair hbuf (by omega)).of_write fair hbuf' (by omega)
  · simp only [← wridx]
    rw [load_of_write_of_disjoint hbuf' (by omega)]
    exact load_of_write h.legal.starts (by omega) hbuf
  · simp only [haround, List.sum_nil, Nat.add_zero]
  · simp only
    omega

/-- A message behind the others that stands in one piece across the end of the ring, since its end
overflows. -/
theorem Ready.put_across (h : Ready ring kept msg) (count : ls.length = n) (fair : ∀ l ∈ ls, FairLength l)
    (dvd : 8 ∣ kept.rdidx.toNat) (follow : Follow kept.buf kept.rdidx.toNat ls)
    (wridx : kept.wridx.toNat = kept.rdidx.toNat + ls.sum) (lt : kept.wridx.toNat < kept.size.toNat)
    (hover : 2 ^ 32 ≤ kept.wridx.toNat + (msglen msg).toNat) : Went ring kept msg n := by
  have hsum := toNat_wridx_add kept msg
  have hsize := kept.size.toNat_lt
  have hends := h.roomy.ends
  have hlt := h.roomy.lt_size
  have hspace := h.room
  have hle := h.legal.le
  obtain ⟨-, -, hlegal⟩ := sizes
  rw [ringspace_straight (by omega) lt] at hspace
  have hindex : (kept.wridx + msglen msg).toNat = kept.wridx.toNat + (msglen msg).toNat - 2 ^ 32 := by
    omega
  have hwrap : ¬ kept.wridx + msglen msg ≥ kept.size := by
    rw [ge_iff_le, UInt32.le_iff_toNat_le]
    omega
  have haround : around kept.size.toNat (kept.rdidx.toNat + ls.sum + (msglen msg).toNat) =
      (kept.wridx + msglen msg).toNat := by
    rw [around, ← wridx, if_neg (by omega), hindex]
  obtain ⟨buf, hbuf, hput⟩ := putmessage_one_piece h.legal.starts h.kept_eq hwrap (by omega)
  refine ⟨_, hput, rfl, length_of_write hbuf, .wrapped ls (msglen msg).toNat [] (by simp [count])
    (fair_snoc fair (.of_legal h.legal)) dvd (follow_append.mpr ⟨?_, ?_, trivial⟩) (wridx ▸ lt) ?_ trivial
    ?_ ?_⟩
  · exact follow.of_write fair hbuf (by omega)
  · simp only [← wridx]
    exact load_of_put h.legal hbuf
  · simp only
    omega
  · simp only [haround, List.sum_nil, Nat.add_zero]
  · simp only
    omega

/-- A message goes where there is room for it, behind the ones that are kept. -/
theorem Linked.put (hlinked : Linked kept n) (h : Ready ring kept msg) : Went ring kept msg n := by
  have hspace := h.room
  cases hlinked with
  | straight ls count fair dvd follow wridx lt =>
    rcases Nat.lt_or_ge (kept.wridx.toNat + (msglen msg).toNat) kept.size.toNat with hinside | hreach
    · exact h.put_inside count fair dvd follow wridx hinside
    · rcases Nat.lt_or_ge (kept.wridx.toNat + (msglen msg).toNat) (2 ^ 32) with hsmall | hover
      · exact h.put_around count fair dvd follow wridx lt hreach hsmall
      · exact h.put_across count fair dvd follow wridx lt hover
  | wrapped ls l ls' count fair dvd follow inside reaches front wridx lt =>
    have hsum := toNat_wridx_add kept msg
    have hsize := kept.size.toNat_lt
    have hroom := h.roomy.size_le
    rw [ringspace_wrapped lt (by omega)] at hspace
    have hwrap : ¬ kept.wridx + msglen msg ≥ kept.size := by
      rw [ge_iff_le, UInt32.le_iff_toNat_le]
      omega
    have hlength := h.legal.starts.length_message
    have hback : ∀ k ∈ ls ++ [l], FairLength k := by
      intro k hk
      apply fair k
      rw [List.append_cons]
      exact List.mem_append_left _ hk
    have hfront : ∀ k ∈ ls', FairLength k := fun k hk =>
      fair k (List.mem_append_right ls (List.mem_cons_of_mem l hk))
    obtain ⟨buf, hbuf, hput⟩ := putmessage_one_piece h.legal.starts h.kept_eq hwrap (by omega)
    refine ⟨_, hput, rfl, length_of_write hbuf, .wrapped ls l (ls' ++ [(msglen msg).toNat])
      ?_ ?_ dvd ?_ inside reaches (follow_append.mpr ⟨?_, ?_, trivial⟩) ?_ ?_⟩
    · rw [List.length_append, List.length_singleton]
      omega
    · rw [← List.cons_append, ← List.append_assoc]
      exact fair_snoc fair (.of_legal h.legal)
    · exact follow.of_write hback hbuf (by omega)
    · exact front.of_write hfront hbuf (by omega)
    · simp only [← wridx]
      exact load_of_put h.legal hbuf
    · simp only [List.sum_append, List.sum_singleton]
      omega
    · simp only
      omega

end Puts

end pwrapi.log
