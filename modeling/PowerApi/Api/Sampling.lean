import PowerApi.Api.Statistics
import PowerApi.Lib.ExactDouble
import PowerApi.Lib.RunningStats

open RunningStats

namespace pwrapi

variable {K : Type*} [Field K] [LinearOrder K]

/-- The arrays of a `stat_t`, which have an entry for each of its objects. -/
structure StatArrays (K : Type*) where
  values : ℕ → ExactDouble K
  instants : ℕ → UInt64

/-- What one read call of `calculate_stat` returns and leaves in its arrays. -/
structure Round (K : Type*) where
  retval : Int
  reading : ℕ → K
  readtime : ℕ → UInt64

/-- The arrays that `calculate_stat` writes, with its local variables. -/
structure Sampling (K : Type*) extends StatArrays K where
  roll_mean : ℕ → ExactDouble K
  roll_sum : ℕ → ExactDouble K
  avgcnt : ExactDouble K
  prev_mean : ExactDouble K

namespace Sampling

/-- The locals before the loops, with the arrays as they were left. -/
def start (arrays : StatArrays K) : Sampling K :=
  { arrays with roll_mean := fun _ => 0, roll_sum := fun _ => 0, avgcnt := 0, prev_mean := 0 }

/-- The initialization of one object's statistic, unless it is not supported. -/
def init_object (stat : PwrAttrStat) (s : Sampling K) (i : ℕ) : Option (Sampling K) :=
  match stat with
  | .MIN => some { s with values := Function.update s.values i .inf }
  | .MAX => some { s with values := Function.update s.values i .neg_inf }
  | .AVG => some { s with values := Function.update s.values i 0 }
  | .STDEV =>
    some { s with
      values := Function.update s.values i 0
      roll_mean := Function.update s.roll_mean i 0
      roll_sum := Function.update s.roll_sum i 0 }
  | _ => none

/-- The body of the loop over the objects after a read. -/
def update_object (sqrt : K → K) (stat : PwrAttrStat) (r : Round K) (s : Sampling K) (i : ℕ) :
    Option (Sampling K) :=
  let reading : ExactDouble K := .fin (r.reading i)
  match stat with
  | .MIN =>
    if reading.flt (s.values i) then
      some { s with
        values := Function.update s.values i reading
        instants := Function.update s.instants i (r.readtime i) }
    else some s
  | .MAX =>
    if (s.values i).flt reading then
      some { s with
        values := Function.update s.values i reading
        instants := Function.update s.instants i (r.readtime i) }
    else some s
  | .AVG =>
    some { s with values := Function.update s.values i (s.values i + (reading - s.values i) / s.avgcnt) }
  | .STDEV =>
    let prev_mean := s.roll_mean i
    let roll_mean := s.roll_mean i + (reading - s.roll_mean i) / s.avgcnt
    let roll_sum := s.roll_sum i + (reading - roll_mean) * (reading - prev_mean)
    some { s with
      prev_mean
      roll_mean := Function.update s.roll_mean i roll_mean
      roll_sum := Function.update s.roll_sum i roll_sum
      values := Function.update s.values i ((roll_sum / (s.avgcnt - 1)).fsqrt sqrt) }
  | _ => none

/-- One turn of the loop of `calculate_stat`. A turn whose read fails only waits. -/
def sample (sqrt : K → K) (stat : PwrAttrStat) (objcount : ℕ) (s : Sampling K) (r : Round K) :
    Option (Sampling K) :=
  if r.retval ≠ PWR_RET_SUCCESS then some s
  else (List.range objcount).foldlM (update_object sqrt stat r) { s with avgcnt := s.avgcnt + 1 }

end Sampling

/-- `calculate_stat` until the thread is told to die after the given rounds. -/
def calculate_stat (sqrt : K → K) (stat : PwrAttrStat) (objcount : ℕ) (rounds : List (Round K))
    (arrays : StatArrays K) : Option (Sampling K) :=
  match (List.range objcount).foldlM (Sampling.init_object stat) (Sampling.start arrays) with
  | none => none
  | some s => rounds.foldlM (Sampling.sample sqrt stat objcount) s

end pwrapi
