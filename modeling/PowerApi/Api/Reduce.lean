import Mathlib.Analysis.Real.Sqrt
import PowerApi.Api.SamplingRuns

open RunningStats Loops

namespace pwrapi

/-- What `PWR_StatGetReduce` stores for its caller. -/
structure Reduction (K : Type*) where
  index : Int
  result : ExactDouble K
  instant : UInt64

/-- The caller's variables with the locals of `PWR_StatGetReduce`. -/
structure Reducing (K : Type*) extends Reduction K where
  avgcnt : ExactDouble K
  roll_mean : ExactDouble K
  roll_sum : ExactDouble K
  prev_mean : ExactDouble K

section Code

variable {K : Type*} [Field K] [LinearOrder K]

/-- The value that a reduction begins with, if the operation is valid. -/
def reduce_first : PwrAttrStat → Option (ExactDouble K)
  | .MIN => some .inf
  | .MAX => some .neg_inf
  | .AVG | .STDEV => some 0
  | _ => none

/-- The body of the loop over the objects. -/
def reduce_object (reduceOp : PwrAttrStat) (arrays : StatArrays K) (s : Reducing K) (i : ℕ) : Reducing K :=
  match reduceOp with
  | .MIN =>
    if (arrays.values i).flt s.result then
      { s with result := arrays.values i, index := i, instant := arrays.instants i }
    else s
  | .MAX =>
    if s.result.flt (arrays.values i) then
      { s with result := arrays.values i, index := i, instant := arrays.instants i }
    else s
  | .AVG =>
    let avgcnt := .fin i + 1
    { s with avgcnt, result := s.result + (arrays.values i - s.result) / avgcnt }
  | .STDEV =>
    let avgcnt := .fin i + 1
    let prev_mean := s.roll_mean
    let roll_mean := s.roll_mean + (arrays.values i - s.roll_mean) / avgcnt
    { s with
      avgcnt, prev_mean, roll_mean
      roll_sum := s.roll_sum + (arrays.values i - roll_mean) * (arrays.values i - prev_mean) }
  | _ => s

/-- The loop, from the first value on. -/
def reduce_objects (reduceOp : PwrAttrStat) (objcount : ℕ) (arrays : StatArrays K) (first : ExactDouble K)
    (out : Reduction K) : Reducing K :=
  (List.range objcount).foldl (reduce_object reduceOp arrays)
    { out with result := first, avgcnt := 0, roll_mean := 0, roll_sum := 0, prev_mean := 0 }

/-- The end of `PWR_StatGetReduce`, for a statistic of the given type. -/
def Reducing.finish (sqrt : K → K) (stat : PwrAttrStat) (s : Reducing K) : Reduction K :=
  if stat = .STDEV then { s.toReduction with result := (s.roll_sum / (s.avgcnt - 1)).fsqrt sqrt }
  else s.toReduction

/-- `PWR_StatGetReduce`, with the arrays of each statistic by its address. -/
def Library.PWR_StatGetReduce (sqrt : K → K) (statObj : UInt64) (reduceOp : PwrAttrStat)
    (arrays : Nat → StatArrays K) (out : Reduction K) (lib : Library) : Option (Reply × Reduction K) :=
  match lib.find_valid_stat statObj with
  | none => none
  | some (.error reply) => some (reply, out)
  | some (.ok (stat, s)) =>
    match reduce_first reduceOp with
    | none => some (failure ["Invalid reduce operation."], out)
    | some first =>
      some (success, (reduce_objects reduceOp s.objcount.toNat (arrays stat) first out).finish sqrt s.stat)

/-- The objects' values, each with the object's index and instant. -/
def indexed (xs : ℕ → K) (instants : ℕ → UInt64) (objcount : ℕ) : List (K × Int × UInt64) :=
  (List.range objcount).map fun i => (xs i, (i : Int), instants i)

/-- The reduction is the one that the operation asks for. -/
def Reduction.Answers (sqrt : K → K) (reduceOp : PwrAttrStat) (objects : List (K × Int × UInt64))
    (r : Reduction K) : Prop :=
  match reduceOp with
  | .MIN => ∃ v, r.result = .fin v ∧ Attains (· < ·) objects (v, r.index, r.instant)
  | .MAX => ∃ v, r.result = .fin v ∧ Attains (· > ·) objects (v, r.index, r.instant)
  | .AVG => r.result = .fin (mean (objects.map Prod.fst))
  | .STDEV => r.result = .fin (sqrt (variance (objects.map Prod.fst)))
  | _ => False

theorem indexed_succ {K : Type*} (xs : ℕ → K) (instants : ℕ → UInt64) (n : ℕ) :
    indexed xs instants (n + 1) = indexed xs instants n ++ [(xs n, (n : Int), instants n)] := by
  simp [indexed, List.range_succ]

theorem values_indexed {K : Type*} (xs : ℕ → K) (instants : ℕ → UInt64) (n : ℕ) :
    (indexed xs instants n).map Prod.fst = (List.range n).map xs := by
  simp [indexed]

theorem indexed_ne_nil {K : Type*} {xs : ℕ → K} {instants : ℕ → UInt64} {n : ℕ} (hn : 1 ≤ n) :
    indexed xs instants n ≠ [] := by
  rw [indexed, Ne, List.map_eq_nil_iff, List.range_eq_nil]
  omega

theorem range_map_succ {α : Type*} (xs : ℕ → α) (n : ℕ) :
    (List.range (n + 1)).map xs = (List.range n).map xs ++ [xs n] := by
  rw [List.range_succ, List.map_append, List.map_singleton]

section Loop

open ExactDouble

variable {xs : ℕ → K} {arrays : StatArrays K} {n : ℕ} {first : ExactDouble K}
  (out : Reduction K)

/-- The loop for the minimum or the maximum, by the comparison its body makes. -/
theorem reduce_objects_extreme (reduceOp : PwrAttrStat) {r : K → K → Prop} [DecidableRel r]
    [IsStrictTotalOrder K r] {better : ExactDouble K → ExactDouble K → Bool} (hbetter : Compares better r first)
    (hbody : ∀ s i, reduce_object reduceOp arrays s i =
      if better (arrays.values i) s.result then
        { s with result := arrays.values i, index := i, instant := arrays.instants i }
      else s)
    (hvalues : ∀ i < n, arrays.values i = .fin (xs i)) (hn : 1 ≤ n) :
    let s := reduce_objects reduceOp n arrays first out
    (∃ v, s.result = .fin v ∧ Attains r (indexed xs arrays.instants n) (v, s.index, s.instant)) ∧
      s.roll_sum = 0 ∧ s.avgcnt = 0 := by
  have hloop := foldl_range_rule (f := reduce_object reduceOp arrays) (n := n)
    (s := { out with result := first, avgcnt := 0, roll_mean := 0, roll_sum := 0, prev_mean := 0 })
    (fun k s => Extreme r first (indexed xs arrays.instants k) s.result (s.index, s.instant) ∧
      s.roll_sum = 0 ∧ s.avgcnt = 0)
    ⟨extreme_nil _ _ _, rfl, rfl⟩ ?_
  · obtain ⟨hresult, hrest⟩ := hloop
    exact ⟨hresult.attains (indexed_ne_nil hn), hrest⟩
  · rintro k s hk ⟨hresult, hsum, hcnt⟩
    have hnext := hresult.concat hbetter (xs k) ((k : Int), arrays.instants k)
    rw [indexed_succ, hbody, hvalues k hk]
    by_cases hless : better (.fin (xs k)) s.result = true
    · simp only [hless, if_true] at hnext ⊢
      exact ⟨hnext, hsum, hcnt⟩
    · simp only [hless] at hnext ⊢
      exact ⟨hnext, hsum, hcnt⟩

variable [IsStrictOrderedRing K]

theorem reduce_objects_AVG (hvalues : ∀ i < n, arrays.values i = .fin (xs i)) :
    let s := reduce_objects .AVG n arrays 0 out
    s.result = .fin (mean ((List.range n).map xs)) ∧ s.roll_sum = 0 ∧ s.avgcnt = .fin n := by
  have hloop := foldl_range_rule (f := reduce_object .AVG arrays) (n := n)
    (s := { out with result := 0, avgcnt := 0, roll_mean := 0, roll_sum := 0, prev_mean := 0 })
    (fun k s => s.result = .fin (mean ((List.range k).map xs)) ∧ s.roll_sum = 0 ∧ s.avgcnt = .fin k)
    ⟨by simp, rfl, by simp⟩ ?_
  · exact hloop
  · rintro k s hk ⟨hresult, hsum, -⟩
    have hnext := Sampling.running_mean ((List.range k).map xs) (xs k)
    rw [List.length_map, List.length_range, ← range_map_succ] at hnext
    refine ⟨?_, hsum, by simp [reduce_object]⟩
    simp only [reduce_object]
    rw [hresult, hvalues k hk, one_eq_fin, fin_add_fin, hnext]

theorem reduce_objects_STDEV (hvalues : ∀ i < n, arrays.values i = .fin (xs i)) :
    let s := reduce_objects .STDEV n arrays 0 out
    s.result = 0 ∧ s.roll_sum = .fin (deviations ((List.range n).map xs)) ∧ s.avgcnt = .fin n := by
  have hloop := foldl_range_rule (f := reduce_object .STDEV arrays) (n := n)
    (s := { out with result := 0, avgcnt := 0, roll_mean := 0, roll_sum := 0, prev_mean := 0 })
    (fun k s => s.roll_mean = .fin (mean ((List.range k).map xs)) ∧ s.result = 0 ∧
      s.roll_sum = .fin (deviations ((List.range k).map xs)) ∧ s.avgcnt = .fin k)
    ⟨by simp, rfl, by simp, by simp⟩ ?_
  · exact hloop.2
  · rintro k s hk ⟨hmean, hresult, hsum, -⟩
    have hnext := Sampling.running_mean ((List.range k).map xs) (xs k)
    rw [List.length_map, List.length_range, ← range_map_succ] at hnext
    simp only [reduce_object]
    rw [hmean, hsum, hvalues k hk, one_eq_fin, fin_add_fin, hnext, fin_sub_fin, fin_sub_fin, fin_mul_fin,
      fin_add_fin, range_map_succ, ← deviations_concat]
    exact ⟨rfl, hresult, rfl, by simp⟩

end Loop

end Code

/-- The reductions whose value comes out right although the root is taken of another operation's
sums, or is not taken. -/
def Coincides (reduceOp : PwrAttrStat) (xs : List ℝ) : Prop :=
  match reduceOp with
  | .MIN => 0 ∈ xs ∧ ∀ x ∈ xs, 0 ≤ x
  | .MAX => 0 ∈ xs ∧ ∀ x ∈ xs, x ≤ 0
  | .AVG => 2 ≤ xs.length ∧ xs.sum = 0
  | .STDEV => ∀ x ∈ xs, ∀ y ∈ xs, x = y
  | _ => False

section Roots

open ExactDouble

variable {s : Reducing ℝ} {stat reduceOp : PwrAttrStat} {xs : ℕ → ℝ} {arrays : StatArrays ℝ} {n : ℕ}
  {out : Reduction ℝ} {objects : List (ℝ × Int × UInt64)}

theorem finish_other (hstat : stat ≠ .STDEV) : s.finish Real.sqrt stat = s.toReduction := if_neg hstat

theorem finish_STDEV :
    s.finish Real.sqrt .STDEV = { s.toReduction with result := (s.roll_sum / (s.avgcnt - 1)).fsqrt Real.sqrt } :=
  if_pos rfl

/-- The root of a sum that no object was added to. -/
theorem root_of_zero {count : ℝ} (hcount : count ≠ 1) :
    ((0 : ExactDouble ℝ) / (.fin count - 1)).fsqrt Real.sqrt = .fin 0 := by
  rw [zero_eq_fin, one_eq_fin, fin_sub_fin, fin_div_fin (sub_ne_zero.mpr hcount), zero_div, fsqrt_fin le_rfl,
    Real.sqrt_zero]

theorem extreme_root_iff {r : ℝ → ℝ → Prop} [IsStrictTotalOrder ℝ r]
    (h : ∃ v, s.result = .fin v ∧ Attains r objects (v, s.index, s.instant)) (hsum : s.roll_sum = 0)
    (hcnt : s.avgcnt = 0) :
    (∃ v, (s.finish Real.sqrt .STDEV).result = .fin v ∧
      Attains r objects (v, (s.finish Real.sqrt .STDEV).index, (s.finish Real.sqrt .STDEV).instant)) ↔
      0 ∈ objects.map Prod.fst ∧ ∀ x ∈ objects.map Prod.fst, ¬ r x 0 := by
  obtain ⟨least, -, hattains⟩ := h
  have hroot : (s.finish Real.sqrt .STDEV).result = .fin 0 := by
    rw [finish_STDEV, hsum, hcnt]
    exact root_of_zero zero_ne_one
  rw [hroot, finish_STDEV]
  constructor
  · rintro ⟨v, hv, hzero⟩
    cases hv
    exact hzero.value_eq_iff.mp rfl
  · intro hzero
    obtain rfl : least = 0 := hattains.value_eq_iff.mpr hzero
    exact ⟨0, rfl, hattains⟩

theorem sum_eq_zero_iff_mean {xs : List ℝ} : mean xs = 0 ↔ xs.sum = 0 := by
  rw [mean, div_eq_zero_iff, or_iff_left_of_imp]
  intro hlength
  rw [Nat.cast_eq_zero, List.length_eq_zero_iff] at hlength
  rw [hlength, List.sum_nil]

theorem sqrt_variance_eq_zero_iff {xs : List ℝ} (hn : 2 ≤ xs.length) :
    Real.sqrt (variance xs) = 0 ↔ ∀ x ∈ xs, ∀ y ∈ xs, x = y := by
  rw [Real.sqrt_eq_zero (variance_nonneg (by omega)), variance_eq_zero_iff hn]
  constructor
  · intro hmean x hx y hy
    rw [hmean x hx, hmean y hy]
  · intro hall x hx
    have hrest : xs = List.replicate xs.length x := List.eq_replicate_iff.mpr ⟨rfl, fun y hy => hall y hy x hx⟩
    have hlength : (xs.length : ℝ) ≠ 0 := by
      rw [Nat.cast_ne_zero]
      omega
    rw [mean, eq_div_iff hlength, mul_comm]
    nth_rewrite 2 [hrest]
    rw [List.sum_replicate, nsmul_eq_mul]

/-- An extremum comes out unless a root is taken, which comes to zero. -/
theorem extreme_finish_iff {r : ℝ → ℝ → Prop} [IsStrictTotalOrder ℝ r]
    (h : ∃ v, s.result = .fin v ∧ Attains r objects (v, s.index, s.instant)) (hsum : s.roll_sum = 0)
    (hcnt : s.avgcnt = 0) :
    (∃ v, (s.finish Real.sqrt stat).result = .fin v ∧
      Attains r objects (v, (s.finish Real.sqrt stat).index, (s.finish Real.sqrt stat).instant)) ↔
      stat ≠ .STDEV ∨ 0 ∈ objects.map Prod.fst ∧ ∀ x ∈ objects.map Prod.fst, ¬ r x 0 := by
  by_cases hstat : stat = .STDEV
  · rw [hstat, extreme_root_iff h hsum hcnt, or_iff_right (fun hne => hne rfl)]
  · rw [finish_other hstat]
    exact iff_of_true h (Or.inl hstat)

variable (out) in
/-- What the loop and the end of the call come to, for each operation. -/
theorem finish_answers_iff {first : ExactDouble ℝ} (hfirst : reduce_first reduceOp = some first)
    (hvalues : ∀ i < n, arrays.values i = .fin (xs i)) (hn : 1 ≤ n) (hdev : reduceOp = .STDEV → 2 ≤ n) :
    ((reduce_objects reduceOp n arrays first out).finish Real.sqrt stat).Answers Real.sqrt reduceOp
        (indexed xs arrays.instants n) ↔
      (stat = .STDEV ↔ reduceOp = .STDEV) ∨ Coincides reduceOp ((List.range n).map xs) := by
  cases reduceOp with
  | MIN =>
    cases hfirst
    have hloop := reduce_objects_extreme out .MIN compares_min (fun _ _ => rfl) hvalues hn
    rw [Reduction.Answers, extreme_finish_iff hloop.1 hloop.2.1 hloop.2.2, values_indexed]
    simp [Coincides]
  | MAX =>
    cases hfirst
    have hloop := reduce_objects_extreme out .MAX compares_max (fun _ _ => rfl) hvalues hn
    rw [Reduction.Answers, extreme_finish_iff hloop.1 hloop.2.1 hloop.2.2, values_indexed]
    simp [Coincides]
  | AVG =>
    cases hfirst
    obtain ⟨hresult, hsum, hcnt⟩ := reduce_objects_AVG out hvalues
    by_cases hstat : stat = .STDEV
    · rw [hstat, finish_STDEV, Reduction.Answers, values_indexed, hsum, hcnt]
      by_cases hone : n = 1
      · simp [Coincides, hone, zero_div_zero, fsqrt]
      · rw [root_of_zero (by exact_mod_cast hone)]
        simp only [fin.injEq, Coincides, List.length_map, List.length_range, reduceCtorEq, iff_false,
          not_true_eq_false,
          false_or]
        rw [eq_comm, sum_eq_zero_iff_mean, and_iff_right (by omega)]
    · rw [finish_other hstat, Reduction.Answers, values_indexed]
      simp only [hstat, reduceCtorEq, true_or, iff_true]
      exact hresult
  | STDEV =>
    cases hfirst
    have hn := hdev rfl
    obtain ⟨hresult, hsum, hcnt⟩ := reduce_objects_STDEV out hvalues
    have hlength : ((List.range n).map xs).length = n := by simp
    by_cases hstat : stat = .STDEV
    · have hvariance := Sampling.running_variance ((List.range n).map xs) (by omega)
      rw [hlength] at hvariance
      rw [hstat, finish_STDEV, Reduction.Answers, values_indexed, hsum, hcnt, hvariance,
        fsqrt_fin (variance_nonneg (by omega))]
      simp
    · rw [finish_other hstat, Reduction.Answers, values_indexed, hresult, zero_eq_fin]
      simp only [fin.injEq, hstat, iff_true, false_or, Coincides]
      rw [eq_comm, sqrt_variance_eq_zero_iff (by omega)]
  | _ => cases hfirst

end Roots

/-- The call for a statistic that is found and still has a group to monitor. -/
theorem PWR_StatGetReduce_eq {lib : Library} {statObj : UInt64} {stat : Nat} {s : Stat}
    (hfind : lib.find_valid_stat statObj = some (.ok (stat, s))) {reduceOp : PwrAttrStat} {first : ExactDouble ℝ}
    (hfirst : reduce_first reduceOp = some first) {n : ℕ} (hn : s.objcount = n) (arrays : Nat → StatArrays ℝ)
    (out : Reduction ℝ) :
    lib.PWR_StatGetReduce Real.sqrt statObj reduceOp arrays out =
      some (Library.success, (reduce_objects reduceOp n (arrays stat) first out).finish Real.sqrt s.stat) := by
  rw [Library.PWR_StatGetReduce, hfind]
  simp only [hfirst, hn, Int.toNat_natCast]

/-- A reduction comes out as asked for when its operation takes a root just where the statistic's own
type has one taken, and otherwise by coincidence only. -/
theorem PWR_StatGetReduce_answers_iff {lib : Library} {statObj : UInt64} {stat : Nat} {s : Stat}
    (hfind : lib.find_valid_stat statObj = some (.ok (stat, s))) {arrays : Nat → StatArrays ℝ} {xs : ℕ → ℝ}
    {n : ℕ} (hn : s.objcount = n) (hvalues : ∀ i < n, (arrays stat).values i = .fin (xs i))
    {reduceOp : PwrAttrStat} (hop : supported reduceOp) (hpos : 1 ≤ n) (hdev : reduceOp = .STDEV → 2 ≤ n)
    (out : Reduction ℝ) :
    (∃ r, lib.PWR_StatGetReduce Real.sqrt statObj reduceOp arrays out = some (Library.success, r) ∧
      r.Answers Real.sqrt reduceOp (indexed xs (arrays stat).instants n)) ↔
      (s.stat = .STDEV ↔ reduceOp = .STDEV) ∨ Coincides reduceOp ((List.range n).map xs) := by
  obtain ⟨first, hfirst⟩ : ∃ first, reduce_first (K := ℝ) reduceOp = some first := by
    obtain rfl | rfl | rfl | rfl := hop <;> exact ⟨_, rfl⟩
  rw [← finish_answers_iff out hfirst hvalues hpos hdev, PWR_StatGetReduce_eq hfind hfirst hn]
  constructor
  · rintro ⟨r, hr, hanswers⟩
    cases hr
    exact hanswers
  · intro hanswers
    exact ⟨_, rfl, hanswers⟩

/-- A library whose only statistic is one of the average power of a group of two. -/
def power_stats : Library :=
  { opaque_map := { table := (∅ : HashTable UInt64 Nat).insert 7 100
                    refs := Function.update (fun _ => {}) 100 { type := .STAT, key := 7 } }
    stats := (∅ : HashTable Nat Stat).insert 100
      { context_key := 3, grp := OPAQUE_GENERATE 3 5, attr := .POWER, stat := .AVG, objcount := 2 } }

/-- The averages of the two objects are 1 and 3. -/
noncomputable def power_averages : Nat → StatArrays ℝ :=
  fun _ => { values := fun i => .fin (2 * i + 1), instants := fun _ => 0 }

theorem power_stats_find : power_stats.find_valid_stat (OPAQUE_GENERATE 3 7) = some (.ok (100,
    { context_key := 3, grp := OPAQUE_GENERATE 3 5, attr := .POWER, stat := .AVG, objcount := 2 })) := rfl

theorem power_averages_values : ∀ i < 2, (power_averages 100).values i = .fin ((fun i : ℕ => 2 * (i : ℝ) + 1) i) :=
  fun _ _ => rfl

theorem PWR_StatGetReduce_answers_iff_power :
    ∃ r, power_stats.PWR_StatGetReduce Real.sqrt (OPAQUE_GENERATE 3 7) .MAX power_averages ⟨0, 0, 0⟩ =
        some (Library.success, r) ∧
      r.Answers Real.sqrt .MAX (indexed (fun i => 2 * i + 1) (fun _ => 0) 2) :=
  (PWR_StatGetReduce_answers_iff power_stats_find rfl power_averages_values (.inr (.inl rfl)) one_le_two (by simp)
    _).mpr (.inl (by decide))

/-- The standard deviation of the averages 1 and 3 is returned as 0. -/
theorem PWR_StatGetReduce_power :
    ¬ ∃ r, power_stats.PWR_StatGetReduce Real.sqrt (OPAQUE_GENERATE 3 7) .STDEV power_averages ⟨0, 0, 0⟩ =
        some (Library.success, r) ∧
      r.Answers Real.sqrt .STDEV (indexed (fun i => 2 * i + 1) (fun _ => 0) 2) := by
  rintro ⟨r, hr, hanswers⟩
  rw [PWR_StatGetReduce_eq power_stats_find (n := 2) rfl rfl] at hr
  cases hr
  obtain heq | hcoincides := (finish_answers_iff _ rfl power_averages_values one_le_two fun _ => le_rfl).mp hanswers
  · simp at heq
  · have hsame := hcoincides 1 (by simp) 3 (by norm_num [List.range_succ])
    norm_num at hsame

end pwrapi
