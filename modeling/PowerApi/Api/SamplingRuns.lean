import Mathlib.Algebra.Order.Ring.Rat
import Mathlib.Data.Rat.Sqrt
import PowerApi.Api.Sampling
import PowerApi.Lib.Loops

open RunningStats Loops

namespace pwrapi

section Extreme

variable {K β : Type*}

/-- What the search for an extreme value has found in the readings so far. -/
def Extreme (r : K → K → Prop) (first : ExactDouble K) (readings : List (K × β)) (value : ExactDouble K)
    (tag : β) : Prop :=
  if readings = [] then value = first else ∃ v, value = .fin v ∧ Attains r readings (v, tag)

/-- A comparison that on numbers is the given relation, and that lets every number replace `first`. -/
structure Compares (better : ExactDouble K → ExactDouble K → Bool) (r : K → K → Prop) [DecidableRel r]
    (first : ExactDouble K) : Prop where
  first (x : K) : better (.fin x) first = true
  fin (x v : K) : better (.fin x) (.fin v) = decide (r x v)

theorem compares_min [LinearOrder K] : Compares (K := K) ExactDouble.flt (· < ·) .inf :=
  ⟨fun _ => rfl, fun _ _ => rfl⟩

theorem compares_max [LinearOrder K] : Compares (K := K) (fun x y => y.flt x) (· > ·) .neg_inf :=
  ⟨fun _ => rfl, fun _ _ => rfl⟩

theorem extreme_nil (r : K → K → Prop) (first : ExactDouble K) (tag : β) :
    Extreme r first ([] : List (K × β)) first tag := by
  rw [Extreme, if_pos rfl]

theorem Extreme.attains {r : K → K → Prop} {first value : ExactDouble K} {readings : List (K × β)} {tag : β}
    (h : Extreme r first readings value tag) (hne : readings ≠ []) :
    ∃ v, value = .fin v ∧ Attains r readings (v, tag) := (if_neg hne).mp h

theorem Extreme.concat {r : K → K → Prop} [DecidableRel r] [IsStrictTotalOrder K r] {first value : ExactDouble K}
    {better : ExactDouble K → ExactDouble K → Bool} {readings : List (K × β)} {tag : β}
    (hbetter : Compares better r first) (h : Extreme r first readings value tag) (x : K) (next : β) :
    Extreme r first (readings ++ [(x, next)]) (if better (.fin x) value then .fin x else value)
      (if better (.fin x) value then next else tag) := by
  rw [Extreme, if_neg (by simp)]
  by_cases hne : readings = []
  · rw [Extreme, if_pos hne] at h
    rw [h, hbetter.first, hne]
    exact ⟨x, rfl, attains_singleton _⟩
  · rw [Extreme, if_neg hne] at h
    obtain ⟨v, rfl, hattains⟩ := h
    have hnext := hattains.concat (x, next)
    rw [hbetter.fin]
    by_cases hr : r x v
    · rw [keep_first, if_pos hr] at hnext
      simp only [hr, decide_true, if_true]
      exact ⟨x, rfl, hnext⟩
    · rw [keep_first, if_neg hr] at hnext
      simp only [hr, decide_false, Bool.false_eq_true, if_false]
      exact ⟨v, rfl, hnext⟩

end Extreme

/-- What the arrays have for one object. -/
structure Entry (K : Type*) where
  value : ExactDouble K
  instant : UInt64
  roll_mean : ExactDouble K
  roll_sum : ExactDouble K

/-- The statistics that `calculate_stat` has a case for. -/
def supported (stat : PwrAttrStat) : Prop := stat = .MIN ∨ stat = .MAX ∨ stat = .AVG ∨ stat = .STDEV

def Sampling.entry {K : Type*} (s : Sampling K) (i : ℕ) : Entry K :=
  { value := s.values i, instant := s.instants i, roll_mean := s.roll_mean i, roll_sum := s.roll_sum i }

/-- An object's readings in the rounds whose read succeeded, with their times. -/
def readings_of {K : Type*} (i : ℕ) (rounds : List (Round K)) : List (K × UInt64) :=
  (rounds.filter (·.retval = PWR_RET_SUCCESS)).map fun r => (r.reading i, r.readtime i)

variable {K : Type*} [Field K] [LinearOrder K]

namespace Entry

/-- The entry is the statistic of exactly the given readings. The root of the variance is squared
where the function `sqrt` has roots. -/
def Describes (sqrt : K → K) (stat : PwrAttrStat) (readings : List (K × UInt64)) (e : Entry K) : Prop :=
  match stat with
  | .MIN => ∃ v, e.value = .fin v ∧ Attains (· < ·) readings (v, e.instant)
  | .MAX => ∃ v, e.value = .fin v ∧ Attains (· > ·) readings (v, e.instant)
  | .AVG => e.value = .fin (mean (readings.map Prod.fst))
  | .STDEV =>
    e.roll_mean = .fin (mean (readings.map Prod.fst)) ∧
    e.roll_sum = .fin (deviations (readings.map Prod.fst)) ∧
    (2 ≤ readings.length → ∃ v, e.value = .fin v ∧ v = sqrt (variance (readings.map Prod.fst)) ∧
      ((∀ x, 0 ≤ x → sqrt x * sqrt x = x) → v * v = variance (readings.map Prod.fst)))
  | _ => False

/-- What holds of an entry also before the first reading. -/
def Tracks (sqrt : K → K) (stat : PwrAttrStat) (readings : List (K × UInt64)) (e : Entry K) : Prop :=
  match stat with
  | .MIN => Extreme (· < ·) .inf readings e.value e.instant
  | .MAX => Extreme (· > ·) .neg_inf readings e.value e.instant
  | stat => e.Describes sqrt stat readings

variable {sqrt : K → K} {stat : PwrAttrStat} {readings : List (K × UInt64)} {e : Entry K}

theorem Tracks.describes (h : e.Tracks sqrt stat readings) (hne : readings ≠ []) :
    e.Describes sqrt stat readings := by
  cases stat with
  | MIN => exact h.attains hne
  | MAX => exact h.attains hne
  | _ => exact h

end Entry

namespace Sampling

open ExactDouble

section Entries

variable {s : Sampling K} {stat : PwrAttrStat} {i j : ℕ} {s' : Sampling K}

omit [LinearOrder K] in
theorem init_object_other (h : init_object stat s i = some s') (hj : j ≠ i) : s'.entry j = s.entry j := by
  cases stat <;> cases h <;> simp [entry, hj]

theorem update_object_other {sqrt : K → K} {r : Round K} (h : update_object sqrt stat r s i = some s')
    (hj : j ≠ i) : s'.entry j = s.entry j ∧ s'.avgcnt = s.avgcnt := by
  cases stat with
  | MIN | MAX =>
    simp only [update_object] at h
    split at h <;> cases h <;> simp [entry, hj]
  | _ => cases h <;> simp [entry, hj]

end Entries

section Start

variable {sqrt : K → K} {stat : PwrAttrStat} {s : Sampling K} {i : ℕ}

variable (sqrt) in
theorem init_object_tracks (hstat : supported stat) :
    ∃ s', init_object stat s i = some s' ∧ (s'.entry i).Tracks sqrt stat [] ∧ s'.avgcnt = s.avgcnt := by
  obtain rfl | rfl | rfl | rfl := hstat
  · exact ⟨_, rfl, by simp [Entry.Tracks, entry, extreme_nil], rfl⟩
  · exact ⟨_, rfl, by simp [Entry.Tracks, entry, extreme_nil], rfl⟩
  · exact ⟨_, rfl, by simp [Entry.Tracks, Entry.Describes, entry], rfl⟩
  · exact ⟨_, rfl, by simp [Entry.Tracks, Entry.Describes, entry], rfl⟩

/-- What holds of all objects after the given rounds. -/
def TracksAll (sqrt : K → K) (stat : PwrAttrStat) (objcount : ℕ) (rounds : List (Round K)) (s : Sampling K) : Prop :=
  s.avgcnt = .fin (rounds.filter (·.retval = PWR_RET_SUCCESS)).length ∧
    ∀ i < objcount, (s.entry i).Tracks sqrt stat (readings_of i rounds)

theorem init_tracks_all (hstat : supported stat) (objcount : ℕ) (arrays : StatArrays K) :
    ∃ s, (List.range objcount).foldlM (init_object stat) (start arrays) = some s ∧
      TracksAll sqrt stat objcount [] s := by
  have hloop := foldlM_range_rule (f := init_object stat) (s := start arrays) (n := objcount)
    (fun k s => s.avgcnt = 0 ∧ ∀ i < k, (s.entry i).Tracks sqrt stat [])
    ⟨rfl, by simp⟩ ?_
  · obtain ⟨s, hs, hcnt, htracks⟩ := hloop
    exact ⟨s, hs, by simpa using hcnt, htracks⟩
  · rintro k s - ⟨hcnt, htracks⟩
    obtain ⟨s', hs', hk, hcnt'⟩ := init_object_tracks sqrt (s := s) (i := k) hstat
    refine ⟨s', hs', hcnt'.trans hcnt, ?_⟩
    intro i hi
    by_cases hik : i = k
    · rw [hik]
      exact hk
    · rw [init_object_other hs' hik]
      exact htracks i (by omega)

end Start

section Readings

variable [IsStrictOrderedRing K]

theorem running_mean (xs : List K) (x : K) :
    (.fin (mean xs) + (.fin x - .fin (mean xs)) / .fin (xs.length + 1) : ExactDouble K) = .fin (mean (xs ++ [x])) := by
  have hlength : (xs.length : K) + 1 ≠ 0 := by exact_mod_cast Nat.succ_ne_zero xs.length
  rw [fin_sub_fin, fin_div_fin hlength, fin_add_fin, mean_concat]

theorem running_variance (xs : List K) (h : 2 ≤ xs.length) :
    (.fin (deviations xs) / (.fin xs.length - 1) : ExactDouble K) = .fin (variance xs) := by
  have hlength : (xs.length : K) - 1 ≠ 0 := by
    rw [sub_ne_zero]
    exact_mod_cast (show xs.length ≠ 1 by omega)
  rw [one_eq_fin, fin_sub_fin, fin_div_fin hlength, variance]

variable {sqrt : K → K} {stat : PwrAttrStat} {readings : List (K × UInt64)} {s : Sampling K} {r : Round K} {i : ℕ}

theorem update_object_tracks (hcnt : s.avgcnt = .fin (readings.length + 1))
    (h : (s.entry i).Tracks sqrt stat readings) :
    ∃ s', update_object sqrt stat r s i = some s' ∧
      (s'.entry i).Tracks sqrt stat (readings ++ [(r.reading i, r.readtime i)]) := by
  have hne : readings ++ [(r.reading i, r.readtime i)] ≠ [] := by simp
  have hmap : (readings ++ [(r.reading i, r.readtime i)]).map Prod.fst = readings.map Prod.fst ++ [r.reading i] := by
    simp
  have hlength : (readings.length : K) = (readings.map Prod.fst).length := by simp
  cases stat with
  | MIN =>
    have hnext := h.concat compares_min (r.reading i) (r.readtime i)
    by_cases hless : (.fin (r.reading i) : ExactDouble K).flt (s.values i) = true
    · exact ⟨_, if_pos hless, by simpa [Entry.Tracks, entry, hless] using hnext⟩
    · exact ⟨_, if_neg hless, by simpa [Entry.Tracks, entry, hless] using hnext⟩
  | MAX =>
    have hnext := h.concat compares_max (r.reading i) (r.readtime i)
    by_cases hless : (s.values i).flt (.fin (r.reading i)) = true
    · exact ⟨_, if_pos hless, by simpa [Entry.Tracks, entry, hless] using hnext⟩
    · exact ⟨_, if_neg hless, by simpa [Entry.Tracks, entry, hless] using hnext⟩
  | AVG =>
    have hvalue : s.values i = .fin (mean (readings.map Prod.fst)) := h
    refine ⟨_, rfl, ?_⟩
    simp only [Entry.Tracks, Entry.Describes, entry, Function.update_self]
    rw [hvalue, hcnt, hlength, running_mean, hmap]
  | STDEV =>
    obtain ⟨hmean, hsum, -⟩ := h
    simp only [entry] at hmean hsum
    refine ⟨_, rfl, ?_⟩
    simp only [Entry.Tracks, Entry.Describes, entry, Function.update_self]
    rw [hmean, hsum, hcnt, hlength, running_mean, hmap, fin_sub_fin, fin_sub_fin, fin_mul_fin, fin_add_fin,
      ← deviations_concat]
    refine ⟨rfl, rfl, ?_⟩
    intro hcount
    have hxs : 2 ≤ (readings.map Prod.fst ++ [r.reading i]).length := by simpa using hcount
    have hcast : ((readings.map Prod.fst).length : K) + 1 = (readings.map Prod.fst ++ [r.reading i]).length := by simp
    have hnonneg : 0 ≤ variance (readings.map Prod.fst ++ [r.reading i]) := variance_nonneg (by omega)
    rw [hcast, running_variance _ hxs, fsqrt_fin hnonneg]
    exact ⟨_, rfl, rfl, fun hsqrt => hsqrt _ hnonneg⟩
  | _ => exact absurd h id

theorem sample_tracks_all {objcount : ℕ} {rounds : List (Round K)} (h : TracksAll sqrt stat objcount rounds s)
    (r : Round K) :
    ∃ s', sample sqrt stat objcount s r = some s' ∧ TracksAll sqrt stat objcount (rounds ++ [r]) s' := by
  obtain ⟨hcnt, htracks⟩ := h
  by_cases hretval : r.retval = PWR_RET_SUCCESS
  · have hfilter : (rounds ++ [r]).filter (·.retval = PWR_RET_SUCCESS) =
        rounds.filter (·.retval = PWR_RET_SUCCESS) ++ [r] := by simp [hretval]
    have hreadings : ∀ i, readings_of i (rounds ++ [r]) = readings_of i rounds ++ [(r.reading i, r.readtime i)] := by
      intro i
      rw [readings_of, hfilter, List.map_append]
      rfl
    have hlength : ∀ i, (rounds.filter (·.retval = PWR_RET_SUCCESS)).length = (readings_of i rounds).length := by
      intro i
      rw [readings_of, List.length_map]
    -- the objects below `k` have seen this round, and the others have not
    have hloop := foldlM_range_rule (f := update_object sqrt stat r) (s := { s with avgcnt := s.avgcnt + 1 })
      (n := objcount)
      (fun k s => s.avgcnt = .fin ((rounds.filter (·.retval = PWR_RET_SUCCESS)).length + 1) ∧
        (∀ i < k, (s.entry i).Tracks sqrt stat (readings_of i (rounds ++ [r]))) ∧
        ∀ i < objcount, k ≤ i → (s.entry i).Tracks sqrt stat (readings_of i rounds))
      ⟨?_, by simp, fun i hi _ => htracks i hi⟩ ?_
    · obtain ⟨s', hs', hcnt', hseen, -⟩ := hloop
      refine ⟨s', ?_, ?_, hseen⟩
      · rw [sample, if_neg (not_not.mpr hretval)]
        exact hs'
      · rw [hcnt', hfilter, List.length_append, List.length_singleton, Nat.cast_add, Nat.cast_one]
    · show s.avgcnt + 1 = _
      rw [hcnt, one_eq_fin, fin_add_fin]
    · rintro k s hk ⟨hcnt, hseen, hunseen⟩
      obtain ⟨s', hs', hnow⟩ := update_object_tracks (r := r) (by rw [hcnt, hlength k]) (hunseen k hk le_rfl)
      have hother := fun i (hik : i ≠ k) => update_object_other hs' hik
      refine ⟨s', hs', (hother (k + 1) (by omega)).2.trans hcnt, ?_, ?_⟩
      · intro i hi
        by_cases hik : i = k
        · rw [hik, hreadings]
          exact hnow
        · rw [(hother i hik).1]
          exact hseen i (by omega)
      · intro i hi hik
        rw [(hother i (by omega)).1]
        exact hunseen i hi (by omega)
  · have hfilter : (rounds ++ [r]).filter (·.retval = PWR_RET_SUCCESS) =
        rounds.filter (·.retval = PWR_RET_SUCCESS) := by simp [hretval]
    refine ⟨s, if_pos hretval, by rw [hfilter, hcnt], ?_⟩
    intro i hi
    rw [readings_of, hfilter]
    exact htracks i hi

theorem rounds_tracks_all {objcount : ℕ} (h : TracksAll sqrt stat objcount [] s) (rounds : List (Round K)) :
    ∃ s', rounds.foldlM (sample sqrt stat objcount) s = some s' ∧ TracksAll sqrt stat objcount rounds s' := by
  refine foldlM_rule (TracksAll sqrt stat objcount) h ?_
  intro before r _ s _ hs
  exact sample_tracks_all hs r

end Readings

end Sampling

variable [IsStrictOrderedRing K]

/-- However the failed reads are spread over the rounds, each object's entry is the statistic of
its readings in the others. -/
theorem calculate_stat_exact (sqrt : K → K) {stat : PwrAttrStat} (hstat : supported stat) (objcount : ℕ)
    {rounds : List (Round K)} (hread : ∃ r ∈ rounds, r.retval = PWR_RET_SUCCESS) (arrays : StatArrays K) :
    ∃ s, calculate_stat sqrt stat objcount rounds arrays = some s ∧
      ∀ i < objcount, (s.entry i).Describes sqrt stat (readings_of i rounds) := by
  obtain ⟨first, hfirst, hinit⟩ := Sampling.init_tracks_all hstat objcount arrays
  obtain ⟨s, hs, -, htracks⟩ := Sampling.rounds_tracks_all hinit rounds
  refine ⟨s, by rw [calculate_stat, hfirst]; exact hs, ?_⟩
  intro i hi
  refine (htracks i hi).describes ?_
  obtain ⟨r, hr, hretval⟩ := hread
  intro hnone
  rw [readings_of, List.map_eq_nil_iff, List.filter_eq_nil_iff] at hnone
  exact hnone r hr (by simpa using hretval)

/-- A sensor that reads 1, then fails, then reads 3 and 2. -/
def sensor_rounds : List (Round ℚ) :=
  [⟨PWR_RET_SUCCESS, fun _ => 1, fun _ => 10⟩, ⟨PWR_RET_FAILURE, fun _ => 0, fun _ => 0⟩,
   ⟨PWR_RET_SUCCESS, fun _ => 3, fun _ => 30⟩, ⟨PWR_RET_SUCCESS, fun _ => 2, fun _ => 40⟩]

theorem calculate_stat_exact_sensor :
    ∃ s, calculate_stat Rat.sqrt .STDEV 1 sensor_rounds ⟨fun _ => 0, fun _ => 0⟩ = some s ∧
      ∀ i < 1, (s.entry i).Describes Rat.sqrt .STDEV [(1, 10), (3, 30), (2, 40)] :=
  calculate_stat_exact Rat.sqrt (.inr (.inr (.inr rfl))) 1 ⟨_, List.mem_cons_self, rfl⟩ _

end pwrapi
