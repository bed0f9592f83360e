import Mathlib.Data.Rat.Floor
import Mathlib.Data.String.Basic
import Mathlib.Algebra.BigOperators.Group.List.Basic
import ReedCode.Lib.Grouping

/-!
# Paired reports

`paired_estimate`, `pair_exclusion`, `paired_results` and `pooled_results` of `reporting.py`, in
exact arithmetic.

* `Rng` — a seeded generator; `pick` is what `rng.choices` draws.
* `pairedEstimate` — mean and bootstrap interval of some differences.
* `pairedResults` — one entry for each task, comparison and metric.
* `pooledResults` — one entry for each comparison and metric, over the tasks.

A field of a row is as the functions read it: a metric that is `None` or missing is `none`, and a
field that is only tested is its truth value.
-/

set_option autoImplicit false

namespace ReedCode.Reporting

/-! ## Estimates -/

/-- The values of `random()`, in the order of the calls. -/
structure Rng where
  random : Nat → Rat
  nonneg : ∀ n, 0 ≤ random n
  lt_one : ∀ n, random n < 1

/-- `floor(random() * n)`. -/
def Rng.pick (rng : Rng) {n : Nat} (hn : 0 < n) (call : Nat) : Fin n :=
  ⟨⌊rng.random call * n⌋.toNat, by
    have hlt : rng.random call * n < n := by
      have hpos : (0 : Rat) < n := Nat.cast_pos.2 hn
      have hmul := mul_lt_mul_of_pos_right (rng.lt_one call) hpos
      rwa [one_mul] at hmul
    have hfloor : ⌊rng.random call * n⌋ < n := Int.floor_lt.2 (by exact_mod_cast hlt)
    omega⟩

inductive CiStatus where
  | insufficientPairs
  | insufficientTasks
  | degenerate
  | estimated
  deriving DecidableEq, Repr

structure Estimate where
  pairs : Nat
  meanDelta : Option Rat
  ci95 : Option (Rat × Rat)
  status : CiStatus
  deriving DecidableEq, Repr

def mean (values : List Rat) : Rat := values.sum / values.length

/-- `xs[i]`, where a negative index counts from the end. -/
def pyIndex (xs : List Rat) (i : Int) : Option Rat :=
  if 0 ≤ i then xs[i.toNat]?
  else if -i ≤ xs.length then xs[xs.length - (-i).toNat]?
  else none

/-- `rng.choices(values, k=len(values))` for the resample of a number. -/
def resample (rng : Rng) {values : List Rat} (hpos : 0 < values.length) (number : Nat) : List Rat :=
  (List.range values.length).map fun i => values.get (rng.pick hpos (number * values.length + i))

def sampleMeans (rng : Rng) {values : List Rat} (hpos : 0 < values.length) (count : Nat) :
    List Rat :=
  ((List.range count).map fun number => mean (resample rng hpos number)).insertionSort (· ≤ ·)

/-- `paired_estimate(values, bootstrap_samples, seed)`; `rngs` is `random.Random`. -/
def pairedEstimate (rngs : Int → Rng) (values : List Rat) (bootstrapSamples : Nat) (seed : Int) :
    Except String Estimate :=
  if values = [] then .ok ⟨0, none, none, .insufficientPairs⟩
  else if h : 5 ≤ values.length then
    let samples := sampleMeans (rngs seed) (Nat.lt_of_lt_of_le (by decide) h) bootstrapSamples
    match pyIndex samples (bootstrapSamples / 40), pyIndex samples (39 * bootstrapSamples / 40 - 1) with
    | some lower, some upper =>
      .ok ⟨values.length, some (mean values), some (lower, upper),
        if lower = upper then .degenerate else .estimated⟩
    | _, _ => .error "IndexError"
  else .ok ⟨values.length, some (mean values), none, .insufficientPairs⟩

/-! ## Pairs -/

inductive Metric where
  | reward
  | inputTokens
  | freshTokens
  | modelLatencyMs
  | modelCalls
  | toolCalls
  | outputLimitHit
  | serverPrefillSeconds
  | serverDecodeSeconds
  | serverKvSampledMaxFraction
  deriving DecidableEq, Repr

def pairedMetrics : List Metric :=
  [.reward, .inputTokens, .freshTokens, .modelLatencyMs, .modelCalls, .toolCalls, .outputLimitHit]

def serverMetrics : List Metric :=
  [.serverPrefillSeconds, .serverDecodeSeconds, .serverKvSampledMaxFraction]

/-- `COMPARISONS`: baseline and candidate. -/
def comparisons : List (String × String) :=
  [("head_20k", "head_2k"), ("head_2k", "head_tail_2k"), ("head_20k", "head_tail_2k")]

inductive Reason where
  | missingRun
  | exception
  | incompleteTelemetry
  | missingMetric
  | missingTaskChecksum
  | taskChecksumMismatch
  deriving DecidableEq, Repr

/-- `EXCLUSION_REASONS`. -/
def Reason.all : List Reason :=
  [.missingRun, .exception, .incompleteTelemetry, .missingMetric, .missingTaskChecksum,
    .taskChecksumMismatch]

structure Row where
  task : String
  repeatNumber : Int
  condition : String
  exceptionType : Option String
  telemetryComplete : Bool
  metric : Metric → Option Rat
  taskChecksum : Option String
  serverMetricsEnabled : Bool

structure Planned where
  task : String
  repeatNumber : Int
  deriving DecidableEq, Repr

/-- A text that is not empty. -/
def given (text : Option String) : Bool := text.any (· ≠ "")

def pairExclusion (a b : Option Row) (metric : Metric) : Option Reason :=
  match a, b with
  | some a, some b =>
    if given a.exceptionType ∨ given b.exceptionType then some .exception
    else if metric ≠ .reward ∧ ¬ (a.telemetryComplete ∧ b.telemetryComplete) then
      some .incompleteTelemetry
    else if a.metric metric = none ∨ b.metric metric = none then some .missingMetric
    else if ¬ given a.taskChecksum ∨ ¬ given b.taskChecksum then some .missingTaskChecksum
    else if a.taskChecksum ≠ b.taskChecksum then some .taskChecksumMismatch
    else none
  | _, _ => some .missingRun

structure Result where
  task : String
  baseline : String
  candidate : String
  metric : Metric
  plannedPairs : Nat
  excludedPairs : Reason → Nat
  estimate : Estimate

abbrev Key := String × Int × String

def Row.key (row : Row) : Key := (row.task, row.repeatNumber, row.condition)

def indexRow (index : FinMap Key Row) (row : Row) : Except String (FinMap Key Row) :=
  if index.contains row.key then .error "Duplicate condition in block"
  else .ok (index.insert row.key row)

/-- The rows by task, repeat and condition. -/
def indexRows (rows : List Row) : Except String (FinMap Key Row) := rows.foldlM indexRow .empty

/-- `b[metric] - a[metric]`. -/
def delta? (a b : Option Row) (metric : Metric) : Option Rat :=
  a.bind fun a => b.bind fun b => (a.metric metric).bind fun x =>
    (b.metric metric).map fun y => y - x

/-- One repeat of a comparison. -/
def compareRepeat (index : FinMap Key Row) (task baseline candidate : String) (metric : Metric)
    (st : List Rat × (Reason → Nat)) (repeatNumber : Int) :
    Except String (List Rat × (Reason → Nat)) :=
  let a := index.get? (task, repeatNumber, baseline)
  let b := index.get? (task, repeatNumber, candidate)
  match pairExclusion a b metric with
  | some reason => .ok (st.1, fun r => if r = reason then st.2 r + 1 else st.2 r)
  | none =>
    match delta? a b metric with
    | some delta => .ok (st.1 ++ [delta], st.2)
    | none => .error "TypeError"

def compare (rngs : Int → Rng) (index : FinMap Key Row) (repeats : String → List Int)
    (entry : String × (String × String) × Metric) : Except String Result := do
  let (task, (baseline, candidate), metric) := entry
  let (deltas, exclusions) ←
    (repeats task).foldlM (compareRepeat index task baseline candidate metric) ([], fun _ => 0)
  let estimate ← pairedEstimate rngs deltas 10000 0
  return ⟨task, baseline, candidate, metric, (repeats task).length, exclusions, estimate⟩

/-- `sorted({p["repeat"] for p in plan if p["task"] == task})`. -/
def plannedRepeats (plan : List Planned) (task : String) : List Int :=
  Grouping.sortedSet ((plan.filter fun p => p.task = task).map Planned.repeatNumber)

def includesServer (rows : List Row) (serverMetricsEnabled : Bool) : Bool :=
  serverMetricsEnabled || rows.any fun row => row.serverMetricsEnabled ||
    serverMetrics.any fun metric => (row.metric metric).isSome

def metricsOf (rows : List Row) (serverMetricsEnabled : Bool) : List Metric :=
  if includesServer rows serverMetricsEnabled then pairedMetrics ++ serverMetrics else pairedMetrics

/-- What the loops go through: every task, comparison and metric. -/
def entriesOf (tasks : List String) (metrics : List Metric) :
    List (String × (String × String) × Metric) :=
  tasks.flatMap fun task => comparisons.flatMap fun comparison =>
    metrics.map fun metric => (task, comparison, metric)

def pairedResults (rngs : Int → Rng) (rows : List Row) (plan : List Planned)
    (serverMetricsEnabled : Bool) : Except String (List Result) := do
  let index ← indexRows rows
  (entriesOf (Grouping.sortedSet (plan.map Planned.task))
    (metricsOf rows serverMetricsEnabled)).mapM (compare rngs index (plannedRepeats plan))

/-! ## Pooled over the tasks -/

inductive Coverage where
  | none
  | complete
  | partly
  deriving DecidableEq, Repr

inductive Scope where
  | completePlan
  | observedSubset
  deriving DecidableEq, Repr

structure Pooled where
  baseline : String
  candidate : String
  metric : Metric
  meanDelta : Option Rat
  ci95 : Option (Rat × Rat)
  status : CiStatus
  bootstrapUnit : String
  taskWeighting : String
  includedTaskCount : Nat
  plannedTaskCount : Nat
  includedTasks : List String
  excludedTasks : List String
  completeTaskCount : Nat
  pairs : Nat
  plannedPairs : Nat
  coverage : Coverage
  scope : Scope
  excludedPairs : Reason → Nat

def Result.comparison (r : Result) : String × String × Metric := (r.baseline, r.candidate, r.metric)

def Result.isIncluded (r : Result) : Bool := 0 < r.estimate.pairs

def Result.isComplete (r : Result) : Bool := r.estimate.pairs = r.plannedPairs

/-- `r["mean_delta"]`, which `mean` must be able to add. -/
def Result.meanDelta (r : Result) : Except String Rat :=
  match r.estimate.meanDelta with
  | some delta => .ok delta
  | none => .error "TypeError"

def poolGroup (rngs : Int → Rng) (bootstrapSamples : Nat) (seed : Int)
    (entry : (String × String × Metric) × List Result) : Except String Pooled := do
  let group := entry.2.insertionSort fun r r' => r.task ≤ r'.task
  Except.failIf (¬ (group.map Result.task).Nodup) "Duplicate task in pooled comparison"
  let included := group.filter Result.isIncluded
  let means ← included.mapM Result.meanDelta
  let estimate ← pairedEstimate rngs means bootstrapSamples seed
  let complete := group.all Result.isComplete
  return {
    baseline := entry.1.1
    candidate := entry.1.2.1
    metric := entry.1.2.2
    meanDelta := estimate.meanDelta
    ci95 := estimate.ci95
    status :=
      if estimate.status = .insufficientPairs then .insufficientTasks else estimate.status
    bootstrapUnit := "task"
    taskWeighting := "equal"
    includedTaskCount := included.length
    plannedTaskCount := group.length
    includedTasks := included.map Result.task
    excludedTasks := (group.filter fun r => r.estimate.pairs = 0).map Result.task
    completeTaskCount := group.countP Result.isComplete
    pairs := (group.map fun r => r.estimate.pairs).sum
    plannedPairs := (group.map Result.plannedPairs).sum
    coverage := if included = [] then .none else if complete then .complete else .partly
    scope := if complete then .completePlan else .observedSubset
    excludedPairs := fun reason => (group.map fun r => r.excludedPairs reason).sum }

def pooledResults (rngs : Int → Rng) (results : List Result) (bootstrapSamples : Nat)
    (seed : Int) : Except String (List Pooled) :=
  (Grouping.groups Result.comparison results).entries.mapM (poolGroup rngs bootstrapSamples seed)

end ReedCode.Reporting
