import PowerApi.Log.Buffers
import PowerApi.Log.RingLinks

open CyclicBuffer

namespace pwrapi.log

abbrev LOG_RING_SIZE_DFL : Int64 := 256 * 1024

/-- `getenvzero`, with the number that `strtol` finds in a string and what it leaves of it. -/
def getenvzero (strtol : List Char → Int64 × List Char) (var : Option (List Char)) : Int64 :=
  match var with
  | none => 0
  | some var =>
    let (retval, p) := strtol var
    if p ≠ [] then 0 else retval

/-- The size that `_mtx_pmlog_init` gives its rings, from its argument and `PMLOG_RING_SIZE`. -/
def pmlog_ring_size (strtol : List Char → Int64 × List Char) (PMLOG_RING_SIZE : Option (List Char))
    (ring_size : Int64) : Int64 :=
  let ring_size := if ring_size = 0 then getenvzero strtol PMLOG_RING_SIZE else ring_size
  let ring_size := if ring_size = 0 then LOG_RING_SIZE_DFL else ring_size
  let ring_size := if ring_size < 4096 then 4096 else ring_size
  (ring_size + 7) &&& ~~~7

/-- `_mtx_init_ring` with the size that it allocates, of which `ring->size` has 32 bits. -/
def init_ring (size : UInt64) (buf : Bytes) : Ringbuf := mtx_init_ring size.toUInt32 buf

/-- The loop of `_mtx_putmessage` ends, and the message fits. -/
def PutFits (ring : Ringbuf) (msg : Bytes) : Prop :=
  ∃ fuel ring', discard fuel (msglen msg) ring = some ring' ∧ msglen msg < mtx_ringspace ring'

def LegalCall : RingCall → Prop
  | .put msg => LegalMessage msg
  | .get => True

/-- The ring after some calls, if they all go through. -/
def ring_calls (calls : List RingCall) (ring : Ringbuf) : Option Ringbuf :=
  calls.foldlM (fun ring c => (ring_call c ring).map Prod.snd) ring

/-- Every message fits after any puts and gets, and these all go through. -/
def AlwaysFits (ring : Ringbuf) : Prop :=
  ∀ calls msg, (∀ c ∈ calls, LegalCall c) → LegalMessage msg →
    ∃ ring', ring_calls calls ring = some ring' ∧ PutFits ring' msg

/-- The sizes in bytes of the rings into which every message always fits: more than the longest
message with the 32 bits of the ring, and not so close to the range of an index that the end of a
message overflows it where the buffer ends. -/
def RoomySize (bytes : ℕ) : Prop :=
  sizeof_msgblk < bytes % 2 ^ 32 ∧ (bytes + sizeof_msgblk ≤ 2 ^ 32 ∨ 2 ^ 32 ≤ bytes)

instance (bytes : ℕ) : Decidable (RoomySize bytes) := inferInstanceAs (Decidable (_ ∧ _))

section Sizes

theorem round_dvd (x : Int64) : 8 ∣ (x &&& ~~~7).toUInt64.toNat := by
  have hmask : (x &&& ~~~7).toUInt64 &&& 7 = 0 := by
    rw [← UInt64.toBitVec_inj]
    show x.toBitVec &&& ~~~7#64 &&& 7#64 = 0#64
    have hlow : ~~~7#64 &&& 7#64 = 0#64 := by decide
    rw [BitVec.and_assoc, hlow, BitVec.and_zero]
  have hmod := congrArg UInt64.toNat hmask
  have hbits : (x &&& ~~~7).toUInt64.toNat &&& 7 = (x &&& ~~~7).toUInt64.toNat % 8 :=
    Nat.and_two_pow_sub_one_eq_mod _ 3
  have hseven : (7 : UInt64).toNat = 7 := rfl
  have hzero : (0 : UInt64).toNat = 0 := rfl
  rw [UInt64.toNat_and, hseven, hzero, hbits] at hmod
  exact Nat.dvd_of_mod_eq_zero hmod

variable {size : UInt64} {buf : Bytes}

theorem init_ring_size (size : UInt64) (buf : Bytes) : (init_ring size buf).size.toNat = size.toNat % 2 ^ 32 :=
  UInt64.toNat_toUInt32 size

theorem roomy_init (hdvd : 8 ∣ size.toNat) (hbuf : buf.length = size.toNat) (hroomy : RoomySize size.toNat) :
    Roomy (init_ring size buf) := by
  have hsize := init_ring_size size buf
  obtain ⟨hmax, hheader, hlegal⟩ := sizes
  obtain ⟨hlt, hends⟩ := hroomy
  have hlength : (init_ring size buf).buf.length = size.toNat := hbuf
  refine ⟨?_, ?_, ?_, ?_⟩
  · omega
  · omega
  · omega
  · omega

theorem linked_init (hpos : 0 < (init_ring size buf).size.toNat) : Linked (init_ring size buf) 0 :=
  .straight [] rfl (fun _ hl => absurd hl List.not_mem_nil) (Nat.dvd_zero 8) trivial rfl hpos

end Sizes

section Runs

variable {ring : Ringbuf} {n : ℕ} {c : RingCall} {calls : List RingCall} {msg : Bytes}

theorem Roomy.of_eq (h : Roomy ring) {ring' : Ringbuf} (hsize : ring'.size = ring.size)
    (hbuf : ring'.buf.length = ring.buf.length) : Roomy ring' := by
  refine ⟨?_, ?_, ?_, ?_⟩ <;> simp only [hsize, hbuf]
  · exact h.size_dvd
  · exact h.lt_size
  · exact h.size_le
  · exact h.ends

theorem Linked.putFits (hring : Roomy ring) (h : Linked ring n) (hmsg : LegalMessage msg) : PutFits ring msg := by
  obtain ⟨n', rdidx, hdiscard, -, hspace⟩ := h.discard hring hmsg.le (Nat.lt_succ_self n)
  exact ⟨n + 1, _, hdiscard, hspace⟩

/-- A call goes through and leaves messages one after another. -/
theorem Linked.ring_call (hring : Roomy ring) (h : Linked ring n) (hc : LegalCall c) :
    ∃ r ring' n', log.ring_call c ring = some (r, ring') ∧ Roomy ring' ∧ Linked ring' n' := by
  cases c with
  | get =>
    cases n with
    | zero => exact ⟨none, ring, 0, h.getmessage_zero true, hring, h⟩
    | succ n =>
      obtain ⟨msg, rdidx, hget, hrest⟩ := h.getmessage_succ hring true
      exact ⟨some msg, _, n, hget, hring.of_eq rfl rfl, hrest⟩
  | put msg =>
    obtain ⟨n', rdidx, hdiscard, hlinked, hspace⟩ :=
      h.discard hring hc.le (Nat.lt_succ_of_lt (h.count_lt hring))
    have hready : Ready ring { ring with rdidx } msg :=
      ⟨hring.of_eq rfl rfl, hc, hdiscard, UInt32.lt_iff_toNat_lt.mp hspace⟩
    obtain ⟨ring', hput, hsize, hbuf, hnext⟩ := hlinked.put hready
    refine ⟨none, ring', n' + 1, ?_, hring.of_eq hsize hbuf, hnext⟩
    rw [log.ring_call, hput]
    rfl

theorem ring_calls_cons : ring_calls (c :: calls) ring =
    ((ring_call c ring).map Prod.snd).bind (ring_calls calls) := List.foldlM_cons

theorem Linked.ring_calls (hring : Roomy ring) (h : Linked ring n) (hcalls : ∀ c ∈ calls, LegalCall c) :
    ∃ ring' n', log.ring_calls calls ring = some ring' ∧ Roomy ring' ∧ Linked ring' n' := by
  induction calls generalizing ring n with
  | nil => exact ⟨ring, n, rfl, hring, h⟩
  | cons c calls ih =>
    obtain ⟨r, next, n', hcall, hroomy, hlinked⟩ := h.ring_call hring (hcalls c List.mem_cons_self)
    obtain ⟨ring', m, hrest, hkept⟩ := ih hroomy hlinked fun d hd => hcalls d (List.mem_cons_of_mem c hd)
    refine ⟨ring', m, ?_, hkept⟩
    rw [ring_calls_cons, hcall]
    exact hrest

theorem Linked.alwaysFits (hring : Roomy ring) (h : Linked ring n) : AlwaysFits ring := by
  intro calls msg hcalls hmsg
  obtain ⟨ring', n', hrun, hroomy, hlinked⟩ := h.ring_calls hring hcalls
  exact ⟨ring', hrun, hlinked.putFits hroomy hmsg⟩

end Runs

section Narrow

variable {ring : Ringbuf} {msg : Bytes}

/-- A ring that is empty and too small has nothing to discard, and goes on trying. -/
theorem discard_of_small (hempty : ring.wridx = ring.rdidx) {need : UInt32} (hsmall : ring.size ≤ need)
    (fuel : ℕ) : discard fuel need ring = none := by
  have hspace : mtx_ringspace ring ≤ need := by
    rw [mtx_ringspace, hempty, if_neg (by simp), UInt32.sub_self, UInt32.sub_zero]
    exact hsmall
  induction fuel with
  | zero => rfl
  | succ fuel ih =>
    rw [discard, if_pos hspace, mtx_getmessage, if_pos hempty]
    exact ih

/-- A block of the size of a `msgblk_t`, whose message has the given two bytes for its length. -/
def blank (lo hi : UInt8) : Bytes := lo :: hi :: List.replicate 3998 0

theorem legal_blank (lo hi : UInt8) (hle : lo.toNat + 256 * hi.toNat ≤ 4000) (hdvd : 8 ∣ lo.toNat + 256 * hi.toNat)
    (hheader : 32 ≤ lo.toNat + 256 * hi.toNat) :
    LegalMessage (blank lo hi) ∧ (msglen (blank lo hi)).toNat = lo.toNat + 256 * hi.toNat := by
  have hmsglen : (msglen (blank lo hi)).toNat = lo.toNat + 256 * hi.toNat := by
    have htake : (blank lo hi).take 4 = [lo, hi, 0, 0] := rfl
    have hlo := lo.toNat_lt
    have hhi := hi.toNat_lt
    rw [msglen, htake, u32]
    simp only [List.foldr_cons, List.foldr_nil, UInt32.toNat_add, UInt32.toNat_mul, UInt8.toNat_toUInt32]
    simp
    omega
  have hlength : (blank lo hi).length = 4000 := by
    rw [blank, List.length_cons, List.length_cons, List.length_replicate]
  refine ⟨⟨⟨?_, ?_, ?_⟩, ?_⟩, hmsglen⟩
  · omega
  · omega
  · omega
  · obtain ⟨-, -, hlegal⟩ := sizes
    omega

/-- An empty ring whose indices are away from its start. -/
structure Drained (size p : ℕ) (ring : Ringbuf) : Prop where
  size_eq : ring.size.toNat = size
  length_eq : ring.buf.length = size
  rdidx_eq : ring.rdidx.toNat = p
  wridx_eq : ring.wridx.toNat = p

theorem Drained.discard {size p : ℕ} (h : Drained size p ring) (need : UInt32) (hneed : need.toNat < size)
    (fuel : ℕ) : log.discard (fuel + 1) need ring = some ring := by
  have heq : ring.wridx = ring.rdidx := UInt32.toNat_inj.mp (h.wridx_eq.trans h.rdidx_eq.symm)
  have hsize := h.size_eq
  refine if_neg ?_
  rw [UInt32.not_le, UInt32.lt_iff_toNat_lt, mtx_ringspace, heq, if_neg (by simp), UInt32.sub_self,
    UInt32.sub_zero]
  omega

/-- A message that is put into an empty ring and got again moves its indices. -/
theorem Drained.put_get {size p : ℕ} (h : Drained size p ring) (hmsg : LegalMessage msg)
    (hinside : p + (msglen msg).toNat < size) :
    ∃ ring', ring_calls [.put msg, .get] ring = some ring' ∧ Drained size (p + (msglen msg).toNat) ring' := by
  obtain ⟨hsize, hlength, hrdidx, hwridx⟩ := h
  have hbound := ring.size.toNat_lt
  have hsum := toNat_wridx_add ring msg
  have hheader := hmsg.starts.header_le
  have hdiscard := Drained.discard ⟨hsize, hlength, hrdidx, hwridx⟩ (msglen msg) (by omega) ring.size.toNat
  have hwrap : ¬ ring.wridx + msglen msg ≥ ring.size := by
    rw [ge_iff_le, UInt32.le_iff_toNat_le]
    omega
  obtain ⟨buf, hbuf, hput⟩ := putmessage_one_piece hmsg.starts hdiscard hwrap (by omega)
  have hload := load_of_put hmsg hbuf
  have hkept := length_of_write hbuf
  obtain ⟨out, rdidx, hget, hnext⟩ := @getmessage_at
    { ring with buf, wridx := ring.wridx + msglen msg } (msglen msg).toNat
    (by simp only; omega) (by simp only; omega) (by simp only; omega)
    (by simp only [hrdidx]; rwa [hwridx] at hload)
    (by rw [ne_eq, ← UInt32.toNat_inj]; simp only; omega) (by simp only; omega) true
  refine ⟨{ ring with buf, wridx := ring.wridx + msglen msg, rdidx }, ?_, hsize, hkept.trans hlength, ?_, ?_⟩
  · rw [ring_calls_cons, ring_call, hput]
    simp only [Option.bind_eq_bind, Option.bind_some, Option.map_some]
    rw [ring_calls_cons, ring_call, hget]
    rfl
  · simp only [hnext, behind]
    rw [if_pos (by omega)]
    omega
  · simp only
    omega

theorem ring_calls_append (calls rest : List RingCall) (ring : Ringbuf) :
    ring_calls (calls ++ rest) ring = (ring_calls calls ring).bind (ring_calls rest) := List.foldlM_append

theorem Drained.put_gets {size p : ℕ} (h : Drained size p ring) (hmsg : LegalMessage msg) (k : ℕ)
    (hinside : p + (msglen msg).toNat * k < size) :
    ∃ ring', ring_calls (List.replicate k [.put msg, .get]).flatten ring = some ring' ∧
      Drained size (p + (msglen msg).toNat * k) ring' := by
  induction k generalizing ring p with
  | zero => exact ⟨ring, rfl, h⟩
  | succ k ih =>
    rw [Nat.mul_succ] at hinside ⊢
    obtain ⟨next, hcalls, hnext⟩ := h.put_get hmsg (by omega)
    obtain ⟨ring', hrest, hdrained⟩ := ih hnext (by omega)
    refine ⟨ring', ?_, ?_⟩
    · rw [List.replicate_succ, List.flatten_cons, ring_calls_append, hcalls]
      exact hrest
    · rwa [Nat.add_assoc, Nat.add_comm (msglen msg).toNat] at hdrained

/-- A message that ends where the 32 bits of an index do is written over the end of a buffer that
ends before. -/
theorem Drained.put_overflows {size p : ℕ} (h : Drained size p ring) (hmsg : LegalMessage msg)
    (hneed : (msglen msg).toNat < size) (hover : p + (msglen msg).toNat = 2 ^ 32) :
    mtx_putmessage ring msg = none := by
  obtain ⟨hsize, hlength, hrdidx, hwridx⟩ := h
  have hbound := ring.size.toNat_lt
  have hsum := toNat_wridx_add ring msg
  have hle := hmsg.starts.le_length
  have hdiscard := Drained.discard ⟨hsize, hlength, hrdidx, hwridx⟩ (msglen msg) hneed ring.size.toNat
  have hwrap : ¬ ring.wridx + msglen msg ≥ ring.size := by
    rw [ge_iff_le, UInt32.le_iff_toNat_le]
    omega
  have hread : read msg 0 (msglen msg).toNat = some (message msg) := read_eq (by omega)
  have hwrite : write ring.buf ring.wridx.toNat (message msg) = none := by
    have hmessage := hmsg.starts.length_message
    exact if_neg (by omega)
  rw [mtx_putmessage, hmsg.starts.load_msglen]
  simp only [Option.bind_eq_bind, Option.bind_some, hdiscard, if_neg hwrap, hread, hwrite, Option.bind_none]

end Narrow

section Claims

variable {size : UInt64} {buf : Bytes}

theorem not_alwaysFits_of_small (hsmall : size.toNat % 2 ^ 32 ≤ sizeof_msgblk) :
    ¬ AlwaysFits (init_ring size buf) := by
  intro hfits
  obtain ⟨hlegal, hmsglen⟩ := legal_blank 160 15 (by decide) (by decide) (by decide)
  obtain ⟨ring', hrun, fuel, kept, hdiscard, -⟩ := hfits [] _ (fun c hc => absurd hc List.not_mem_nil) hlegal
  cases hrun
  have hsize := init_ring_size size buf
  rw [discard_of_small rfl (by rw [UInt32.le_iff_toNat_le, hsize, hmsglen]; exact hsmall)] at hdiscard
  cases hdiscard

theorem not_alwaysFits_of_overflow (hbuf : buf.length = size.toNat) (hlt : size.toNat < 2 ^ 32)
    (hends : 2 ^ 32 < size.toNat + sizeof_msgblk) : ¬ AlwaysFits (init_ring size buf) := by
  intro hfits
  obtain ⟨-, -, hsizeof⟩ := sizes
  obtain ⟨hfirst, hfirstlen⟩ := legal_blank 224 12 (by decide) (by decide) (by decide)
  obtain ⟨hlegal, hmsglen⟩ := legal_blank 160 15 (by decide) (by decide) (by decide)
  replace hfirstlen : (msglen (blank 224 12)).toNat = 3296 := hfirstlen
  replace hmsglen : (msglen (blank 160 15)).toNat = 4000 := hmsglen
  -- so many of the longest messages lead from the end of the first to where the last one overflows
  obtain ⟨k, hk⟩ : ∃ k, 3296 + 4000 * k + 4000 = 2 ^ 32 := ⟨1073740, by decide⟩
  have hproduct : (msglen (blank 160 15)).toNat * k = 4000 * k := by rw [hmsglen]
  have hsize := init_ring_size size buf
  rw [Nat.mod_eq_of_lt hlt] at hsize
  have hstart : Drained size.toNat 0 (init_ring size buf) := ⟨by omega, hbuf, rfl, rfl⟩
  obtain ⟨second, hcalls, hsecond⟩ := hstart.put_get hfirst (by omega)
  obtain ⟨last, hmore, hlast⟩ := hsecond.put_gets hlegal k (by omega)
  have hover := hlast.put_overflows hlegal (by omega) (by omega)
  have hpair : ∀ msg, LegalMessage msg → ∀ c ∈ [RingCall.put msg, .get], LegalCall c := by
    intro msg hmsg c hc
    rcases List.mem_cons.mp hc with rfl | hc
    · exact hmsg
    · obtain rfl := List.mem_singleton.mp hc
      trivial
  have hlegals : ∀ c ∈ [.put (blank 224 12), .get] ++
      (List.replicate k [.put (blank 160 15), .get]).flatten ++ [.put (blank 160 15)], LegalCall c := by
    intro c hc
    rcases List.mem_append.mp hc with hc | hc
    · rcases List.mem_append.mp hc with hc | hc
      · exact hpair _ hfirst c hc
      · obtain ⟨pair, hmem, hc⟩ := List.mem_flatten.mp hc
        rw [List.eq_of_mem_replicate hmem] at hc
        exact hpair _ hlegal c hc
    · obtain rfl := List.mem_singleton.mp hc
      exact hlegal
  obtain ⟨ring', hrun, -⟩ := hfits _ _ hlegals hlegal
  rw [ring_calls_append, ring_calls_append, hcalls, Option.bind_some, hmore, Option.bind_some,
    ring_calls_cons, ring_call, hover] at hrun
  cases hrun

/-- A ring serves every message after any calls just when its size is a roomy one. -/
theorem alwaysFits_iff (hdvd : 8 ∣ size.toNat) (hbuf : buf.length = size.toNat) :
    AlwaysFits (init_ring size buf) ↔ RoomySize size.toNat := by
  constructor
  · intro hfits
    by_contra hsize
    rw [RoomySize, not_and_or, not_lt, not_or] at hsize
    rcases hsize with hsmall | ⟨hends, hlt⟩
    · exact not_alwaysFits_of_small hsmall hfits
    · exact not_alwaysFits_of_overflow hbuf (by omega) (by omega) hfits
  · intro hroomy
    have hring := roomy_init hdvd hbuf hroomy
    have hpos := hring.lt_size
    exact (linked_init (by omega)).alwaysFits hring

/-- Every message always fits into the write-through ring. It does into the others just when their
size is a roomy one. -/
theorem pmlog_rings_fit_iff (strtol : List Char → Int64 × List Char) (PMLOG_RING_SIZE : Option (List Char))
    (ring_size : Int64) (buf wrthru : Bytes)
    (hbuf : buf.length = (pmlog_ring_size strtol PMLOG_RING_SIZE ring_size).toUInt64.toNat)
    (hwrthru : wrthru.length = WRTHRU_SIZE) :
    (AlwaysFits (init_ring (pmlog_ring_size strtol PMLOG_RING_SIZE ring_size).toUInt64 buf) ↔
      RoomySize (pmlog_ring_size strtol PMLOG_RING_SIZE ring_size).toUInt64.toNat) ∧
    AlwaysFits (init_ring (UInt64.ofNat WRTHRU_SIZE) wrthru) := by
  have hsize : (UInt64.ofNat WRTHRU_SIZE).toNat = WRTHRU_SIZE := by decide
  refine ⟨alwaysFits_iff (round_dvd _) hbuf, (alwaysFits_iff ?_ ?_).mpr ?_⟩
  · rw [hsize]
    decide
  · rw [hsize, hwrthru]
  · rw [hsize]
    decide

/-- A size of one byte, which is clamped to that of one message and rounded. -/
theorem pmlog_rings_fit_one_byte :
    AlwaysFits (init_ring (pmlog_ring_size (fun var => (0, var)) none 1).toUInt64 (List.replicate 4096 0)) := by
  refine (pmlog_rings_fit_iff (fun var => (0, var)) none 1 (List.replicate 4096 0)
    (List.replicate WRTHRU_SIZE 0) ?_ List.length_replicate).1.mpr ?_
  · rw [List.length_replicate]
    decide
  · decide

/-- A size of 2^32 makes a ring of no bytes, into which no put ever gets to the end of its loop. -/
theorem pmlog_rings_fit_four_gigabytes :
    let ring := init_ring (pmlog_ring_size (fun var => (0, var)) none 4294967296).toUInt64
      (List.replicate 4294967296 0)
    ¬ AlwaysFits ring ∧ LegalMessage (blank 160 15) ∧
      ∀ fuel, discard fuel (msglen (blank 160 15)) ring = none := by
  intro ring
  have hsize : (pmlog_ring_size (fun var => (0, var)) none 4294967296).toUInt64.toUInt32 = 0 := by decide
  refine ⟨not_alwaysFits_of_small ?_, (legal_blank 160 15 (by decide) (by decide) (by decide)).1, ?_⟩
  · decide
  · intro fuel
    refine discard_of_small rfl ?_ fuel
    show (pmlog_ring_size (fun var => (0, var)) none 4294967296).toUInt64.toUInt32 ≤ _
    rw [hsize]
    exact UInt32.zero_le

end Claims

end pwrapi.log
