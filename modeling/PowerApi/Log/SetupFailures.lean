import PowerApi.Log.Setup

open Loops

namespace pwrapi.log

/-- Every step of the construction succeeds. -/
structure AllOk (ok : Outcomes) (num_rings : ℕ) : Prop where
  lockqp : ok.alloc .lockqp = true
  idleqp : ok.alloc .idleqp = true
  rings : ok.alloc .rings = true
  ring : ∀ i ≤ num_rings, ok.alloc (.ring i) = true
  td : ok.alloc .td = true
  file_path : ok.alloc .file_path = true
  thread : ok.thread = true

/-- The clean-up of a failed initialization can do what it is for: no rings were made, or all the
normal ones were, and they can be counted with an `int`. -/
def Undoable (ok : Outcomes) (num_rings : ℕ) : Prop :=
  ok.alloc .lockqp = true → ok.alloc .idleqp = true → ok.alloc .rings = true →
    (∀ i < num_rings, ok.alloc (.ring i) = true) ∧ num_rings + 1 < 2 ^ 31

/-- A context under construction owns what it points at and nothing else. -/
structure Owns (n : ℕ) (bufs : List BufPtr) (s : Setup) : Prop where
  init_count : s.init_count = 1
  lockqp : s.lockqp.isSome = true
  idleqp : s.idleqp.isSome = true
  num_rings : s.num_rings = n
  rings : s.rings = some bufs
  wrthread_data : s.wrthread_data = none
  named : ∀ i p, bufs[i]? = some (BufPtr.set p) → p = Piece.ring i
  live : ∀ p, p ∈ s.live ↔
    p = Piece.lockqp ∨ p = Piece.idleqp ∨ p = Piece.rings ∨ ∃ i : ℕ, bufs[i]? = some (BufPtr.set p)

section Clean

variable {bufs : List BufPtr} {n m : ℕ} {live : Finset Piece} {s : Setup}

theorem free_rings_eq_none_of_unset (hm : m ≤ n) (hunset : bufs[m]? = some .unset) :
    free_rings bufs n live = none := by
  refine foldlM_range_eq_none (Nat.lt_succ_of_le hm) fun live => ?_
  rw [hunset]
  rfl

theorem free_rings_eq_none_of_overflow (hn : 2 ^ 31 ≤ n + 1) : free_rings bufs n live = none := by
  have hlast : 2 ^ 31 - 1 < n + 1 := by omega
  refine foldlM_range_eq_none hlast fun live => ?_
  cases bufs[2 ^ 31 - 1]? with
  | none => rfl
  | some buf =>
    simp only [Option.bind_eq_bind, Option.bind_some]
    cases free buf live with
    | none => rfl
    | some live => simp

/-- Each ring that was made is freed, and nothing else is. -/
theorem free_rings_eq (hn : n + 1 < 2 ^ 31)
    (hbufs : ∀ i ≤ n, bufs[i]? = some (BufPtr.set (.ring i)) ∧ Piece.ring i ∈ live ∨ bufs[i]? = some .null) :
    ∃ live', free_rings bufs n live = some live' ∧
      ∀ p, p ∈ live' ↔ p ∈ live ∧ ∀ i ≤ n, bufs[i]? = some (BufPtr.set (.ring i)) → p ≠ Piece.ring i := by
  suffices hstep : ∀ k middle, k < n + 1 →
      (∀ p, p ∈ middle ↔ p ∈ live ∧ ∀ i < k, bufs[i]? = some (BufPtr.set (.ring i)) → p ≠ Piece.ring i) →
      ∃ next, (do
        let live ← free (← bufs[k]?) middle
        if k + 1 < 2 ^ 31 then some live else none) = some next ∧
      ∀ p, p ∈ next ↔ p ∈ live ∧
        ∀ i < k + 1, bufs[i]? = some (BufPtr.set (.ring i)) → p ≠ Piece.ring i by
    obtain ⟨live', hrun, hlive⟩ := foldlM_range_rule (fun k live' => ∀ p, p ∈ live' ↔ p ∈ live ∧
      ∀ i < k, bufs[i]? = some (BufPtr.set (.ring i)) → p ≠ Piece.ring i)
      (fun p => ⟨fun hp => ⟨hp, fun i hi => absurd hi (Nat.not_lt_zero i)⟩, And.left⟩) hstep
    exact ⟨live', hrun, fun p => (hlive p).trans (by simp only [Nat.lt_succ_iff])⟩
  intro k middle hk hmiddle
  rcases hbufs k (Nat.le_of_lt_succ hk) with ⟨hset, hmem⟩ | hnull
  · have hring : Piece.ring k ∈ middle := by
      refine (hmiddle _).mpr ⟨hmem, fun i hi _ heq => ?_⟩
      cases heq
      exact absurd hi (Nat.lt_irrefl k)
    refine ⟨middle.erase (.ring k), ?_, ?_⟩
    · simp only [hset, Option.bind_eq_bind, Option.bind_some, free, if_pos hring]
      exact if_pos (by omega)
    · intro p
      rw [Finset.mem_erase, hmiddle]
      constructor
      · rintro ⟨hne, hmem, hothers⟩
        refine ⟨hmem, fun i hi hi' => ?_⟩
        rcases Nat.lt_or_eq_of_le (Nat.le_of_lt_succ hi) with hlt | rfl
        · exact hothers i hlt hi'
        · exact hne
      · rintro ⟨hmem, hothers⟩
        exact ⟨hothers k (Nat.lt_succ_self k) hset, hmem, fun i hi => hothers i (Nat.lt_succ_of_lt hi)⟩
  · refine ⟨middle, ?_, ?_⟩
    · simp only [hnull, Option.bind_eq_bind, Option.bind_some, free]
      exact if_pos (by omega)
    · intro p
      rw [hmiddle]
      refine and_congr_right fun _ => ⟨?_, fun hothers i hi => hothers i (Nat.lt_succ_of_lt hi)⟩
      intro hothers i hi hi'
      rcases Nat.lt_or_eq_of_le (Nat.le_of_lt_succ hi) with hlt | rfl
      · exact hothers i hlt hi'
      · rw [hnull] at hi'
        cases hi'

theorem mtx_pmlog_term_eq_none (hcount : s.init_count = 1) (hrings : s.rings = some bufs)
    (hfree : ∀ live, free_rings bufs s.num_rings live = none) : mtx_pmlog_term false s = none := by
  have hmemory : ∀ live, free_ring_memory { s with thdp := none } live = none := by
    intro live
    simp only [free_ring_memory, hrings, hfree]
    rfl
  rw [mtx_pmlog_term, if_neg (by simp [hcount])]
  simp only [Option.bind_eq_bind, hmemory, Option.bind_none]
  cases free_queue s.lockqp .lockqp s.live with
  | none => rfl
  | some live =>
    rw [Option.bind_some]
    cases free_queue s.idleqp .idleqp live <;> rfl

/-- What a context under construction owns is freed, if none of the rings is unset. -/
theorem Owns.term (h : Owns n bufs s) (hn : n + 1 < 2 ^ 31) (hlength : bufs.length = n + 1)
    (hset : ∀ i ≤ n, bufs[i]? ≠ some .unset) : mtx_pmlog_term false s = some {} := by
  obtain ⟨hcount, hlockqp, hidleqp, hnum, hrings, hdata, hnamed, hlive⟩ := h
  have hlock : Piece.lockqp ∈ s.live := (hlive _).mpr (.inl rfl)
  have hidle : Piece.idleqp ∈ s.live.erase .lockqp := by
    rw [Finset.mem_erase, hlive]
    exact ⟨by simp, .inr (.inl rfl)⟩
  have hothers : ∀ p, p ∈ (s.live.erase .lockqp).erase .idleqp ↔
      p = Piece.rings ∨ ∃ i : ℕ, bufs[i]? = some (BufPtr.set p) := by
    intro p
    rw [Finset.mem_erase, Finset.mem_erase, hlive]
    constructor
    · rintro ⟨hidle, hlock, rfl | rfl | hp⟩
      · exact absurd rfl hlock
      · exact absurd rfl hidle
      · exact hp
    · rintro (rfl | ⟨i, hi⟩)
      · exact ⟨by simp, by simp, .inr (.inr (.inl rfl))⟩
      · refine ⟨?_, ?_, .inr (.inr (.inr ⟨i, hi⟩))⟩ <;> rw [hnamed i p hi] <;> simp
  obtain ⟨live', hfree, hlive'⟩ := @free_rings_eq bufs n ((s.live.erase .lockqp).erase .idleqp) hn (by
    intro i hi
    obtain ⟨buf, hbuf⟩ : ∃ buf, bufs[i]? = some buf := ⟨_, List.getElem?_eq_getElem (by omega)⟩
    rw [hbuf]
    cases buf with
    | unset => exact absurd hbuf (hset i hi)
    | null => exact .inr rfl
    | set p =>
      obtain rfl := hnamed i p hbuf
      exact .inl ⟨rfl, (hothers _).mpr (.inr ⟨i, hbuf⟩)⟩)
  have hring : Piece.rings ∈ live' := (hlive' _).mpr ⟨(hothers _).mpr (.inl rfl), fun i _ _ => by simp⟩
  have hnone : live'.erase .rings = ∅ := by
    apply Finset.eq_empty_of_forall_notMem
    intro p hp
    obtain ⟨hne, hmem⟩ := Finset.mem_erase.mp hp
    obtain ⟨hmem, hall⟩ := (hlive' p).mp hmem
    rcases (hothers p).mp hmem with rfl | ⟨i, hi⟩
    · exact hne rfl
    · obtain rfl := hnamed i p hi
      obtain ⟨hi', -⟩ := List.getElem?_eq_some_iff.mp hi
      exact hall i (by omega) hi rfl
  rw [mtx_pmlog_term, if_neg (by simp [hcount])]
  simp only [Option.bind_eq_bind, free_queue, hlockqp, hidleqp, if_true, free, if_pos hlock, Option.bind_some,
    if_pos hidle, free_ring_memory, hrings, hnum, hfree, if_pos hring, hnone, hdata]

end Clean

section Construction

variable {ok : Outcomes} {bufs : List BufPtr} {n i k : ℕ} {s s' : Setup} {b : Bool} {first second : Construct}

theorem next_of_true (h : first s = some (true, s')) : first.next second s = second s' := by
  rw [Construct.next, h]

theorem next_of_false (h : first s = some (false, s')) : first.next second s = some (false, s') := by
  rw [Construct.next, h]

/-- A ring that is made is owned, and one that is not is null. -/
theorem Owns.new_ring (h : Owns n bufs s) (hi : i < bufs.length) (hunset : bufs[i]? = some .unset) :
    ∃ buf s', log.new_ring ok i s = some (ok.alloc (.ring i), s') ∧ Owns n (bufs.set i buf) s' ∧
      buf ≠ .unset ∧ (ok.alloc (.ring i) = true → buf = .set (.ring i)) := by
  obtain ⟨hcount, hlockqp, hidleqp, hnum, hrings, hdata, hnamed, hlive⟩ := h
  have hget : ∀ j buf, (bufs.set i buf)[j]? = if j = i then some buf else bufs[j]? := by
    intro j buf
    rcases eq_or_ne j i with rfl | hne
    · rw [if_pos rfl, List.getElem?_set_self hi]
    · rw [if_neg hne, List.getElem?_set_ne (Ne.symm hne)]
  rw [log.new_ring]
  simp only [hrings, Option.bind_eq_bind, Option.bind_some, if_pos hi]
  cases halloc : ok.alloc (.ring i) with
  | true =>
    refine ⟨.set (.ring i), _, if_pos rfl, ⟨hcount, hlockqp, hidleqp, hnum, rfl, hdata, ?_, ?_⟩, by simp,
      fun _ => rfl⟩
    · intro j p hj
      rw [hget] at hj
      split_ifs at hj with heq
      · cases hj
        rw [heq]
      · exact hnamed j p hj
    · intro p
      simp only [Finset.mem_insert, hlive, hget]
      constructor
      · rintro (rfl | hlock | hidle | hrings | ⟨j, hj⟩)
        · exact .inr (.inr (.inr ⟨i, if_pos rfl⟩))
        · exact .inl hlock
        · exact .inr (.inl hidle)
        · exact .inr (.inr (.inl hrings))
        · refine .inr (.inr (.inr ⟨j, ?_⟩))
          rwa [if_neg]
          rintro rfl
          rw [hunset] at hj
          cases hj
      · rintro (hlock | hidle | hrings | ⟨j, hj⟩)
        · exact .inr (.inl hlock)
        · exact .inr (.inr (.inl hidle))
        · exact .inr (.inr (.inr (.inl hrings)))
        · split_ifs at hj
          · cases hj
            exact .inl rfl
          · exact .inr (.inr (.inr (.inr ⟨j, hj⟩)))
  | false =>
    refine ⟨.null, _, if_neg (by simp), ⟨hcount, hlockqp, hidleqp, hnum, rfl, hdata, ?_, ?_⟩, by simp, by simp⟩
    · intro j p hj
      rw [hget] at hj
      split_ifs at hj
      · cases hj
      · exact hnamed j p hj
    · intro p
      simp only [hlive, hget]
      refine or_congr_right (or_congr_right (or_congr_right (exists_congr fun j => ?_)))
      split_ifs with heq
      · rw [heq, hunset]
        simp
      · rfl

theorem Owns.push_idle (h : Owns n bufs s) (i : ℕ) :
    ∃ s', log.push_idle i s = some (true, s') ∧ Owns n bufs s' := by
  refine ⟨_, rfl, h.init_count, h.lockqp, ?_, h.num_rings, h.rings, h.wrthread_data, h.named, h.live⟩
  rw [Option.isSome_map]
  exact h.idleqp

/-- The loop over the rings fails at one of them or makes them all. The ones after it are left as
they were. -/
theorem Owns.new_rings (h : Owns n bufs s) (hunset : ∀ i < bufs.length, bufs[i]? = some .unset)
    (hk : k ≤ bufs.length) :
    ∃ b bufs' s', log.new_rings ok k s = some (b, s') ∧ Owns n bufs' s' ∧ bufs'.length = bufs.length ∧
      (∀ i, k ≤ i → i < bufs.length → bufs'[i]? = some .unset) ∧
      (b = true → ∀ i < k, ok.alloc (.ring i) = true ∧ bufs'[i]? ≠ some .unset) ∧
      (b = false → ∃ i < k, ok.alloc (.ring i) = false) := by
  induction k with
  | zero =>
    exact ⟨true, bufs, s, rfl, h, rfl, fun i _ => hunset i, fun _ i hi => absurd hi (Nat.not_lt_zero i), by simp⟩
  | succ k ih =>
    obtain ⟨b, bufs', s', hloop, howns, hlength, hrest, htrue, hfalse⟩ := ih (by omega)
    cases b with
    | false =>
      obtain ⟨i, hi, hfail⟩ := hfalse rfl
      exact ⟨false, bufs', s', next_of_false hloop, howns, hlength, fun j hj => hrest j (by omega), by simp,
        fun _ => ⟨i, by omega, hfail⟩⟩
    | true =>
      obtain ⟨buf, last, hring, hmore, hset, -⟩ := @Owns.new_ring ok _ _ k _ howns (by omega)
        (hrest k (Nat.le_refl k) (by omega))
      have hget : ∀ j, j ≠ k → (bufs'.set k buf)[j]? = bufs'[j]? := fun j hj =>
        List.getElem?_set_ne (Ne.symm hj)
      have hrest' : ∀ j, k + 1 ≤ j → j < bufs.length → (bufs'.set k buf)[j]? = some .unset := by
        intro j hj hlt
        rw [hget j (by omega)]
        exact hrest j (by omega) hlt
      have hlength' : (bufs'.set k buf).length = bufs.length := by rw [List.length_set, hlength]
      rw [log.new_rings, next_of_true hloop]
      cases halloc : ok.alloc (.ring k) with
      | false =>
        rw [halloc] at hring
        exact ⟨false, _, last, next_of_false hring, hmore, hlength', hrest', by simp,
          fun _ => ⟨k, Nat.lt_succ_self k, halloc⟩⟩
      | true =>
        rw [halloc] at hring
        obtain ⟨pushed, hpush, hpushed⟩ := hmore.push_idle k
        refine ⟨true, _, pushed, (next_of_true hring).trans hpush, hpushed, hlength', hrest', ?_, by simp⟩
        intro _ i hi
        rcases eq_or_ne i k with rfl | hne
        · refine ⟨halloc, ?_⟩
          rw [List.getElem?_set_self (by omega)]
          exact fun heq => hset (Option.some.inj heq)
        · rw [hget i hne]
          exact htrue rfl i (by omega)

theorem Owns.of_live (h : Owns n bufs s) {live : Finset Piece} (hlive : ∀ p, p ∈ live ↔ p ∈ s.live) :
    Owns n bufs { s with live } :=
  { h with live := fun p => (hlive p).trans (h.live p) }

/-- What the write thread is given is freed where it cannot be started. -/
theorem Owns.start_wrthread (h : Owns n bufs s) :
    ∃ b s', ((init_wrthread_data ok).next (log.start_wrthread ok)) s = some (b, s') ∧
      (b = true ↔ ok.alloc .td = true ∧ ok.alloc .file_path = true ∧ ok.thread = true) ∧
      (b = false → Owns n bufs s') := by
  have hring : ∀ (i : ℕ) p, bufs[i]? = some (BufPtr.set p) → p ≠ .td ∧ p ≠ .file_path := by
    intro i p hi
    rw [h.named i p hi]
    exact ⟨by simp, by simp⟩
  have htd : Piece.td ∉ s.live := by
    rw [h.live]
    rintro (hp | hp | hp | ⟨i, hi⟩)
    · cases hp
    · cases hp
    · cases hp
    · exact (hring i _ hi).1 rfl
  have hpath : Piece.file_path ∉ s.live := by
    rw [h.live]
    rintro (hp | hp | hp | ⟨i, hi⟩)
    · cases hp
    · cases hp
    · cases hp
    · exact (hring i _ hi).2 rfl
  cases halloc : ok.alloc .td with
  | false =>
    refine ⟨false, s, next_of_false ?_, by simp, fun _ => h⟩
    rw [init_wrthread_data, if_neg (by simp [halloc])]
  | true =>
    cases hfile : ok.alloc .file_path with
    | false =>
      refine ⟨false, { s with live := (insert Piece.td s.live).erase .td }, next_of_false ?_, by simp, fun _ => ?_⟩
      · simp [init_wrthread_data, halloc, hfile, free]
      · refine h.of_live fun p => ?_
        rw [Finset.erase_insert htd]
    | true =>
      have hdata : init_wrthread_data ok s =
          some (true, { s with live := insert Piece.file_path (insert Piece.td s.live) }) := by
        simp [init_wrthread_data, halloc, hfile]
      cases hthread : ok.thread with
      | true =>
        exact ⟨true, _, (next_of_true hdata).trans (if_pos hthread), by simp, by simp⟩
      | false =>
        refine ⟨false, { s with live :=
          ((insert Piece.file_path (insert Piece.td s.live)).erase .file_path).erase .td },
          (next_of_true hdata).trans ?_, by simp, fun _ => ?_⟩
        · simp [log.start_wrthread, hthread, free]
        · refine h.of_live fun p => ?_
          rw [Finset.erase_insert (by simp [hpath]), Finset.erase_insert htd]

/-- The context before its rings are made. -/
def with_array (n : ℕ) : Setup :=
  { init_count := 1, lockqp := some [], idleqp := some [], num_rings := n,
    rings := some (List.replicate (ring_capacity n) .unset), live := {.rings, .idleqp, .lockqp} }

theorem owns_with_array (n : ℕ) : Owns n (List.replicate (ring_capacity n) .unset) (with_array n) := by
  refine ⟨rfl, rfl, rfl, rfl, rfl, rfl, ?_, ?_⟩
  · intro i p hi
    cases (List.eq_of_mem_replicate (List.mem_of_getElem? hi))
  · intro p
    have hnone : ¬ ∃ i : ℕ, (List.replicate (ring_capacity n) BufPtr.unset)[i]? = some (.set p) := by
      rintro ⟨i, hi⟩
      cases (List.eq_of_mem_replicate (List.mem_of_getElem? hi))
    simp only [with_array, Finset.mem_insert, Finset.mem_singleton, hnone, or_false]
    tauto

/-- The construction after the ring array. -/
def construct_rings (ok : Outcomes) (num_rings : ℕ) : Construct :=
  (new_rings ok num_rings).next <| (new_wrthruring ok num_rings).next <|
    (init_wrthread_data ok).next <| log.start_wrthread ok

theorem construct_eq (hlockqp : ok.alloc .lockqp = true) (hidleqp : ok.alloc .idleqp = true)
    (hrings : ok.alloc .rings = true) :
    construct ok n { init_count := 1 } = construct_rings ok n (with_array n) := by
  simp [construct, Construct.next, new_queues, new_ring_array, hlockqp, hidleqp, hrings, construct_rings,
    with_array]

/-- With room for the rings, the construction succeeds or leaves what it owns. -/
theorem construct_rings_spec (hcap : ring_capacity n = n + 1) :
    ∃ b s', construct_rings ok n (with_array n) = some (b, s') ∧
      (b = true ↔ (∀ i ≤ n, ok.alloc (.ring i) = true) ∧ ok.alloc .td = true ∧
        ok.alloc .file_path = true ∧ ok.thread = true) ∧
      (b = false → ∃ bufs, Owns n bufs s' ∧ bufs.length = n + 1 ∧
        ((∀ i < n, ok.alloc (.ring i) = true) → ∀ i ≤ n, bufs[i]? ≠ some .unset) ∧
        ((∃ i < n, ok.alloc (.ring i) = false) → bufs[n]? = some .unset)) := by
  have hstart := owns_with_array n
  rw [hcap] at hstart
  obtain ⟨b, bufs, s, hloop, howns, hlength, hrest, htrue, hfalse⟩ := @Owns.new_rings ok _ n n _ hstart
    (fun i hi => by rw [List.length_replicate] at hi; rw [List.getElem?_replicate, if_pos hi])
    (by rw [List.length_replicate]; omega)
  rw [List.length_replicate] at hlength hrest
  have hlast := hrest n (Nat.le_refl n) (Nat.lt_succ_self n)
  cases b with
  | false =>
    obtain ⟨i, hi, hfail⟩ := hfalse rfl
    have hnot : ¬ ∀ i < n, ok.alloc (.ring i) = true := by
      intro hall
      rw [hall i hi] at hfail
      cases hfail
    refine ⟨false, s, next_of_false hloop, ?_, fun _ => ⟨bufs, howns, hlength, (absurd · hnot), fun _ => hlast⟩⟩
    exact ⟨by simp, fun hall => absurd (fun i hi => hall.1 i (Nat.le_of_lt hi)) hnot⟩
  | true =>
    have hnormal : ¬ ∃ i < n, ok.alloc (.ring i) = false := by
      rintro ⟨i, hi, hfail⟩
      rw [(htrue rfl i hi).1] at hfail
      cases hfail
    obtain ⟨buf, made, hring, hmade, hset, -⟩ := @Owns.new_ring ok _ _ n _ howns (by omega) hlast
    have hlength' : (bufs.set n buf).length = n + 1 := by rw [List.length_set, hlength]
    have hbufs : ∀ i ≤ n, (bufs.set n buf)[i]? ≠ some .unset := by
      intro i hi
      rcases eq_or_ne i n with rfl | hne
      · rw [List.getElem?_set_self (by omega)]
        exact fun heq => hset (Option.some.inj heq)
      · rw [List.getElem?_set_ne (Ne.symm hne)]
        exact (htrue rfl i (by omega)).2
    rw [construct_rings, next_of_true hloop]
    cases halloc : ok.alloc (.ring n) with
    | false =>
      rw [halloc] at hring
      have hnot : ¬ ∀ i ≤ n, ok.alloc (.ring i) = true := by
        intro hall
        rw [hall n (Nat.le_refl n)] at halloc
        cases halloc
      exact ⟨false, made, next_of_false (next_of_false hring), ⟨by simp, fun hall => absurd hall.1 hnot⟩,
        fun _ => ⟨_, hmade, hlength', fun _ => hbufs, fun hfail => absurd hfail hnormal⟩⟩
    | true =>
      rw [halloc] at hring
      have hwrthru : Owns n (bufs.set n buf) { made with wrthruring := some n } :=
        ⟨hmade.init_count, hmade.lockqp, hmade.idleqp, hmade.num_rings, hmade.rings, hmade.wrthread_data,
          hmade.named, hmade.live⟩
      obtain ⟨b, last, hfinish, hdone, hkept⟩ := @Owns.start_wrthread ok _ _ _ hwrthru
      refine ⟨b, last, (next_of_true (next_of_true hring)).trans hfinish, ?_, ?_⟩
      · rw [hdone]
        refine (and_iff_right fun i hi => ?_).symm
        rcases eq_or_ne i n with rfl | hne
        · exact halloc
        · exact (htrue rfl i (by omega)).1
      · intro hb
        exact ⟨_, hkept hb, hlength', fun _ => hbufs, fun hfail => absurd hfail hnormal⟩

end Construction

/-- What a part of the construction leaves as it is. -/
def Construct.Keeps (P : Setup → Prop) (part : Construct) : Prop :=
  ∀ s b s', P s → part s = some (b, s') → P s'

section Keeps

variable {ok : Outcomes} {P : Setup → Prop} {first second : Construct}

theorem Construct.Keeps.next (hfirst : first.Keeps P) (hsecond : second.Keeps P) : (first.next second).Keeps P := by
  intro s b s' hs h
  rw [Construct.next] at h
  split at h
  case h_1 middle hmiddle => exact hsecond middle b s' (hfirst s true middle hs hmiddle) h
  case h_2 => exact hfirst s b s' hs h

/-- The rings are made one after another, so what each of them keeps they all do. -/
theorem keeps_new_rings (hring : ∀ i, (new_ring ok i).Keeps P) (hpush : ∀ i, (push_idle i).Keeps P) (k : ℕ) :
    (new_rings ok k).Keeps P := by
  induction k with
  | zero =>
    intro s b s' hs h
    cases h
    exact hs
  | succ k ih => exact ih.next ((hring k).next (hpush k))

/-- The fields that are set at the start are not set again. -/
theorem keeps_construct_rings (n : ℕ) (hP : ∀ s s' : Setup, s'.init_count = s.init_count →
    s'.num_rings = s.num_rings → s'.rings.isSome = s.rings.isSome → P s → P s') :
    (construct_rings ok n).Keeps P := by
  have hring : ∀ i, (new_ring ok i).Keeps P := by
    intro i s b s' hs h
    obtain ⟨bufs, hbufs, h⟩ := Option.bind_eq_some_iff.mp h
    split_ifs at h <;> cases h <;> exact hP s _ rfl rfl (by rw [hbufs]; rfl) hs
  refine (keeps_new_rings hring ?_ n).next (((hring n).next ?_).next (Construct.Keeps.next ?_ ?_))
  · intro i s b s' hs h
    cases h
    exact hP s _ rfl rfl rfl hs
  · intro s b s' hs h
    cases h
    exact hP s _ rfl rfl rfl hs
  · intro s b s' hs h
    rw [init_wrthread_data] at h
    split_ifs at h
    · cases h
      exact hP s _ rfl rfl rfl hs
    · obtain ⟨live, -, h⟩ := Option.bind_eq_some_iff.mp h
      cases h
      exact hP s _ rfl rfl rfl hs
    · cases h
      exact hs
  · intro s b s' hs h
    rw [start_wrthread] at h
    split_ifs at h
    · cases h
      exact hP s _ rfl rfl rfl hs
    · obtain ⟨live, -, h⟩ := Option.bind_eq_some_iff.mp h
      obtain ⟨live, -, h⟩ := Option.bind_eq_some_iff.mp h
      cases h
      exact hP s _ rfl rfl rfl hs

theorem keeps_construct (ok : Outcomes) (n : ℕ) : (construct ok n).Keeps fun s => s.init_count = 1 := by
  refine Construct.Keeps.next ?_ (Construct.Keeps.next ?_
    (keeps_construct_rings n fun s s' hcount _ _ hs => hcount.trans hs))
  · intro s b s' hs h
    cases h
    split_ifs <;> exact hs
  · intro s b s' hs h
    rw [new_ring_array] at h
    split_ifs at h <;> cases h <;> exact hs

end Keeps

section Reached

/-- The contexts that initializations and terminations lead to. -/
inductive Reached : Setup → Prop where
  | fresh : Reached {}
  | init {s s' : Setup} {b : Bool} (ok : Outcomes) (n : ℕ) :
      Reached s → mtx_pmlog_init ok n s = some (b, s') → Reached s'
  | term {s s' : Setup} (force : Bool) : Reached s → mtx_pmlog_term force s = some s' → Reached s'

variable {ok : Outcomes} {n : ℕ} {s s' : Setup} {b force : Bool}

/-- A context with nothing in it. What was allocated for it may still be in use by its last thread. -/
def Setup.Idle (s : Setup) : Prop := s = { thdp := s.thdp, live := s.live }

theorem mtx_pmlog_term_idle (h : mtx_pmlog_term force s = some s') (hcount : s'.init_count = 0) : s'.Idle := by
  rw [mtx_pmlog_term] at h
  simp only at h
  split at h
  case isTrue hkept =>
    cases h
    exact absurd hcount hkept.2.2
  case isFalse =>
    obtain ⟨live, -, h⟩ := Option.bind_eq_some_iff.mp h
    obtain ⟨live, -, h⟩ := Option.bind_eq_some_iff.mp h
    obtain ⟨live, -, h⟩ := Option.bind_eq_some_iff.mp h
    cases h
    rfl

/-- A context that no call counts on has nothing in it, so an initialization that may fail starts from
a context like a fresh one. -/
theorem Reached.idle (h : Reached s) (hcount : s.init_count = 0) : s.Idle := by
  induction h with
  | fresh => rfl
  | @init s s' b ok n _ hinit _ =>
    rw [mtx_pmlog_init] at hinit
    simp only at hinit
    split at hinit
    case isTrue =>
      cases hinit
      exact absurd hcount (Nat.succ_ne_zero _)
    case isFalse hone =>
      split at hinit
      case h_1 failed _ =>
        obtain ⟨done, hterm, hdone⟩ := Option.map_eq_some_iff.mp hinit
        cases hdone
        exact mtx_pmlog_term_idle hterm hcount
      case h_2 =>
        have hkept := keeps_construct ok n _ _ _ (not_not.mp hone) hinit
        omega
  | term force _ hterm _ => exact mtx_pmlog_term_idle hterm hcount

end Reached

section Claims

variable {ok : Outcomes} {n : ℕ}

theorem mtx_pmlog_init_idle (ok : Outcomes) (n : ℕ) : mtx_pmlog_init ok n {} =
    match construct ok n { init_count := 1 } with
    | some (false, s) => (mtx_pmlog_term false s).map fun s => (false, s)
    | r => r := rfl

theorem ring_capacity_eq (hn : (n + 1) * 24 < 2 ^ 64) : ring_capacity n = n + 1 := by
  rw [ring_capacity, Nat.mod_eq_of_lt hn, Nat.mul_div_cancel _ (by omega)]

/-- An initialization none of whose steps fails succeeds. -/
theorem mtx_pmlog_init_succeeds (hok : AllOk ok n) (hn : (n + 1) * 24 < 2 ^ 64) :
    ∃ s', mtx_pmlog_init ok n {} = some (true, s') := by
  obtain ⟨b, s', hconstruct, htrue, -⟩ := @construct_rings_spec ok n (ring_capacity_eq hn)
  obtain rfl := htrue.mpr ⟨hok.ring, hok.td, hok.file_path, hok.thread⟩
  refine ⟨s', ?_⟩
  rw [mtx_pmlog_init_idle, construct_eq hok.lockqp hok.idleqp hok.rings, hconstruct]

/-- A construction that fails before there are rings leaves nothing that is hard to undo. -/
theorem mtx_pmlog_init_no_rings
    (hfail : ok.alloc .lockqp = false ∨ ok.alloc .idleqp = false ∨ ok.alloc .rings = false) :
    mtx_pmlog_init ok n {} = some (false, {}) := by
  rw [mtx_pmlog_init_idle, construct]
  cases hlockqp : ok.alloc .lockqp <;> cases hidleqp : ok.alloc .idleqp <;> cases hrings : ok.alloc .rings <;>
    simp_all [Construct.next, new_queues, new_ring_array, mtx_pmlog_term, free_queue, free, free_ring_memory]
  decide

/-- An initialization that fails leaves the context as it was and frees what it allocated just when
its clean-up finds what it is made for. -/
theorem mtx_pmlog_init_cleans_up_iff (ok : Outcomes) (n : ℕ) (hfail : ¬ AllOk ok n) :
    mtx_pmlog_init ok n {} = some (false, {}) ↔ Undoable ok n := by
  by_cases hnone : ok.alloc .lockqp = false ∨ ok.alloc .idleqp = false ∨ ok.alloc .rings = false
  · refine iff_of_true (mtx_pmlog_init_no_rings hnone) fun hlockqp hidleqp hrings => ?_
    simp [hlockqp, hidleqp, hrings] at hnone
  · simp only [not_or, Bool.not_eq_false] at hnone
    obtain ⟨hlockqp, hidleqp, hrings⟩ := hnone
    rw [mtx_pmlog_init_idle, construct_eq hlockqp hidleqp hrings]
    rcases Nat.lt_or_ge (n + 1) (2 ^ 31) with hn | hn
    · obtain ⟨b, s', hconstruct, htrue, hfalse⟩ := @construct_rings_spec ok n (ring_capacity_eq (by omega))
      cases b with
      | true =>
        obtain ⟨hring, htd, hpath, hthread⟩ := htrue.mp rfl
        exact absurd ⟨hlockqp, hidleqp, hrings, hring, htd, hpath, hthread⟩ hfail
      | false =>
        obtain ⟨bufs, howns, hlength, hset, hunset⟩ := hfalse rfl
        rw [hconstruct]
        by_cases hnormal : ∀ i < n, ok.alloc (.ring i) = true
        · refine iff_of_true ?_ fun _ _ _ => ⟨hnormal, hn⟩
          simp only [howns.term hn hlength (hset hnormal)]
          rfl
        · -- the last of the rings was not reached, and its buffer was never set
          have hlast := hunset (by simpa using hnormal)
          have hterm := mtx_pmlog_term_eq_none howns.init_count howns.rings fun live =>
            free_rings_eq_none_of_unset (Nat.le_of_eq howns.num_rings.symm) hlast
          simp only [hterm]
          exact iff_of_false (by simp) fun hundo => hnormal (hundo hlockqp hidleqp hrings).1
    · refine iff_of_false ?_ fun hundo => by have := (hundo hlockqp hidleqp hrings).2; omega
      cases hconstruct : construct_rings ok n (with_array n) with
      | none => simp
      | some result =>
        obtain ⟨b, s'⟩ := result
        cases b with
        | true => simp
        | false =>
          have hkeeps : (construct_rings ok n).Keeps
              fun s => s.init_count = 1 ∧ s.num_rings = n ∧ s.rings.isSome :=
            keeps_construct_rings n fun s s' hcount hnum hrings => by rw [hcount, hnum, hrings]; exact id
          obtain ⟨hcount, hnum, hrings⟩ := hkeeps _ _ _ ⟨rfl, rfl, rfl⟩ hconstruct
          obtain ⟨bufs, hbufs⟩ := Option.isSome_iff_exists.mp hrings
          have hterm := mtx_pmlog_term_eq_none hcount hbufs fun live =>
            free_rings_eq_none_of_overflow (by rwa [hnum])
          simp [hterm]

/-- The thread does not start, after both rings and the write-through ring were made. -/
theorem mtx_pmlog_init_cleans_up_thread :
    mtx_pmlog_init ⟨fun _ => true, false⟩ 2 {} = some (false, {}) := by
  refine (mtx_pmlog_init_cleans_up_iff _ 2 fun hok => ?_).mpr fun _ _ _ => ⟨fun _ _ => rfl, by decide⟩
  have hthread := hok.thread
  cases hthread

/-- The first of two rings cannot be made: the clean-up frees the buffer of the second, which is not
set. -/
theorem mtx_pmlog_init_first_of_two :
    mtx_pmlog_init ⟨fun piece => piece ≠ .ring 0, true⟩ 2 {} = none := by decide

end Claims

end pwrapi.log
