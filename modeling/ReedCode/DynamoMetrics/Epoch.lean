import ReedCode.ServerMetrics.Delta
import ReedCode.Value

/-!
# Metrics of a whole epoch

`EpochMetrics` of `dynamo_metrics.py`, and what `epoch_values` of `dynamo_report.py` publishes of its
report, in exact arithmetic.

* `Bracket`, `EpochRun` — how the awaits of one scrape end, and those of a whole window.
* `Epoch.scrape`, `Epoch.cut`, `drainLoop` — one scrape, the sampler cut off, and the drain loop.
* `EpochRun.window` — the window at the end; `report`, `serverValues` — its report.
-/

set_option autoImplicit false

namespace ReedCode.DynamoMetrics

open ServerMetrics

/-! ## Outcomes -/

/-- How an identity check ends: with a fingerprint and what it stands for, or with an exception. -/
inductive IdentityCheck where
  | known (fingerprint : String) (identity : Value)
  | failed (error : String)

/-- One scrape between two identity checks; without an identity URL there are no checks. -/
structure Bracket where
  before : IdentityCheck
  scrape : Scrape
  after : IdentityCheck

/-- Where the sampler was when it was cut off. -/
inductive Cut where
  | idle
  | firstCheck
  | scrape (before : IdentityCheck)
  | secondCheck (before : IdentityCheck) (scrape : Scrape)

inductive SamplerEnd where
  | stopped
  | timedOut (cut : Cut)

/-- Everything that a window sees; a drain scrape comes with whether the deadline has passed. -/
structure EpochRun where
  identityUrl : Bool
  before : Bracket
  during : List Bracket
  sampler : SamplerEnd
  drain : List (Bracket × Bool)

/-! ## Scrapes -/

structure IdentitySample where
  phase : Phase
  before : Option String
  after : Option String
  deriving DecidableEq, Repr

structure Epoch where
  before : Option Snapshot
  after : Option Snapshot
  samples : List Taken
  errors : List String
  identitySamples : List IdentitySample
  identities : FinMap String Value
  drained : Bool

def Epoch.new : Epoch := ⟨none, none, [], [], [], .empty, false⟩

def IdentityCheck.fingerprint? : IdentityCheck → Option String
  | .known fingerprint _ => some fingerprint
  | .failed _ => none

/-- `_identity`. -/
def Epoch.identity (w : Epoch) : IdentityCheck → Epoch
  | .known fingerprint identity => { w with identities := w.identities.insert fingerprint identity }
  | .failed error => { w with errors := w.errors ++ ["Identity" ++ error] }

/-- `_scrape` of the base class. -/
def Epoch.read (w : Epoch) (phase : Phase) : Scrape → Epoch
  | .read atSeconds metrics => { w with samples := w.samples ++ [⟨phase, atSeconds, metrics⟩] }
  | .failed error => { w with errors := w.errors ++ [error] }

def Epoch.observe (w : Epoch) (phase : Phase) (before after : Option String) : Epoch :=
  { w with identitySamples := w.identitySamples ++ [⟨phase, before, after⟩] }

/-- `_scrape`. -/
def Epoch.scrape (identityUrl : Bool) (w : Epoch) (phase : Phase) (b : Bracket) : Epoch :=
  if !identityUrl then w.read phase b.scrape
  else
    (((w.identity b.before).read phase b.scrape).identity b.after).observe phase
      b.before.fingerprint? b.after.fingerprint?

/-- The scrape of the sampler when it is cut off; its `finally` still runs. -/
def Epoch.cut (identityUrl : Bool) (w : Epoch) (cut : Cut) : Epoch :=
  if !identityUrl then w
  else
    match cut with
    | .idle => w
    | .firstCheck => w.observe .during none none
    | .scrape before => (w.identity before).observe .during before.fingerprint? none
    | .secondCheck before scrape =>
      ((w.identity before).read .during scrape).observe .during before.fingerprint? none

/-! ## Draining -/

def isIdle (sample : Option Snapshot) : Bool :=
  sample.isSome && requestGauges.all fun key => ServerMetrics.gauge sample key = some 0

/-- The snapshot whose counters are kept; an empty one counts as none. -/
def keptCounters (sample : Option Snapshot) : Option Snapshot :=
  sample.filter fun s => !s.entries.isEmpty

/-- `counters == previous`. -/
def sameCounters : Option Snapshot → Option Snapshot → Bool
  | some a, some b =>
    (Counter.all.flatMap Counter.aliases).all fun name => sameSeries? (a.get? name) (b.get? name)
  | none, none => true
  | _, _ => false

/-- The drain loop; `none` where the scrapes do not end with it. -/
def drainLoop (identityUrl : Bool) : List (Bracket × Bool) → Nat → Option Snapshot → Epoch → Option Epoch
  | [], _, _, _ => none
  | (b, deadlinePassed) :: rest, quiet, previous, w =>
    let sample := b.scrape.metrics?
    let w := { w.scrape identityUrl .drain b with after := sample }
    let counters := keptCounters sample
    let quiet := if isIdle sample && sameCounters counters previous then quiet + 1 else 0
    if 3 ≤ quiet then if rest = [] then some { w with drained := true } else none
    else if deadlinePassed then if rest = [] then some w else none
    else drainLoop identityUrl rest quiet counters w

/-- The window at the end of `__aexit__`, when its report is written. -/
def EpochRun.window (run : EpochRun) : Option Epoch :=
  let w := { Epoch.new.scrape run.identityUrl .before run.before with
    before := run.before.scrape.metrics? }
  let w := run.during.foldl (fun w b => w.scrape run.identityUrl .during b) w
  let w :=
    match run.sampler with
    | .stopped => w
    | .timedOut cut =>
      let w := w.cut run.identityUrl cut
      { w with errors := w.errors ++ ["SamplerStopTimeout"] }
  drainLoop run.identityUrl run.drain 0 none w

/-! ## The report -/

structure PhaseTotals where
  seconds : Delta
  requests : Delta

structure EpochReport where
  scope : String
  validBoundaries : Bool
  idleBefore : Bool
  drained : Bool
  serverRestarted : Bool
  errors : List String
  restartObservable : Bool
  restartIdentitySource : String
  processStartObservable : Bool
  identityObservations : List IdentitySample
  processIdentities : FinMap String Value
  sampleIntervalSeconds : Rat
  counterDeltas : Counter → Delta
  phaseTotals : Histogram → PhaseTotals
  sampledKvMaxFraction : Option Rat
  sampledKvFractionSeconds : Option Rat
  samples : List (Rat × Option Rat)
  notes : List String

namespace Epoch

variable (w : Epoch)

def snapshots : List Snapshot := w.samples.map Taken.metrics

def boundaries : Bool := w.before.isSome && w.after.isSome

def identityValues : List (Option String) :=
  w.identitySamples.flatMap fun sample => [sample.before, sample.after]

/-- `bool(values) and all(values)`. -/
def identityObservable : Bool :=
  !w.identityValues.isEmpty && w.identityValues.all fun value => value.any (· ≠ "")

def identityRestarted : Bool := 1 < (w.identityValues.filterMap id).dedup.length

def restarted : Bool := ServerMetrics.restarted w.snapshots || w.identityRestarted

def delta (identityUrl : Bool) (aliases : List Text) : Delta :=
  if !w.boundaries then ⟨none, .scrapeFailed⟩
  else if w.restarted then ⟨none, .serverRestarted⟩
  else if identityUrl && !w.identityObservable then ⟨none, .identityUnavailable⟩
  else ServerMetrics.delta w.snapshots aliases

def idleBefore : Bool := isIdle w.before

def processObservable : Bool :=
  !w.snapshots.isEmpty && w.snapshots.all fun s =>
    (s.get? processStart).any fun series => !series.entries.isEmpty

def restartObservable (identityUrl : Bool) : Bool :=
  if identityUrl then w.identityObservable else w.processObservable

/-- The cache fractions with the times of their samples. -/
def fractions : List (Rat × Option Rat) :=
  w.samples.map fun s => (s.atSeconds, ServerMetrics.gauge (some s.metrics) .kvCacheUsageFraction)

/-- The fractions, where every sample has one. -/
def covered : Option (List (Rat × Rat)) :=
  if w.fractions = [] then none
  else w.fractions.mapM fun s => (s.2.filter fun v => 0 ≤ v ∧ v ≤ 1).map fun v => (s.1, v)

def validBoundaries (identityUrl : Bool) : Bool :=
  w.boundaries && w.idleBefore && w.drained && w.restartObservable identityUrl && !w.restarted &&
    w.errors.isEmpty

/-- `_report`. -/
def report (identityUrl : Bool) (sampleInterval : Rat) : EpochReport where
  scope := "epoch"
  validBoundaries := w.validBoundaries identityUrl
  idleBefore := w.idleBefore
  drained := w.drained
  serverRestarted := w.restarted
  errors := w.errors
  restartObservable := w.restartObservable identityUrl
  restartIdentitySource := if identityUrl then "process_sidecar" else "prometheus"
  processStartObservable := w.processObservable
  identityObservations := w.identitySamples
  processIdentities := w.identities
  sampleIntervalSeconds := sampleInterval
  counterDeltas := fun key => w.delta identityUrl key.aliases
  phaseTotals := fun key =>
    ⟨w.delta identityUrl [key.sumName], w.delta identityUrl [key.countName]⟩
  sampledKvMaxFraction := w.covered.bind fun samples => (samples.map Prod.snd).max?
  sampledKvFractionSeconds := w.covered.map fun samples =>
    ((samples.zip samples.tail).map fun p => (p.2.1 - p.1.1) * (p.1.2 + p.2.2) / 2).sum
  samples := w.fractions.map fun s => (s.1 - (w.fractions.head?.map Prod.fst).getD 0, s.2)
  notes :=
    ["All traffic on this metrics endpoint is included.",
      "The cache fraction is the largest engine fraction; capacities are unknown.",
      "Three quiet intervals cannot exclude later work or unrelated clients.",
      "A sidecar must watch every engine behind this exact metrics endpoint; tunnel binding is operator supplied."]

end Epoch

/-! ## Published values -/

/-- The server fields of `epoch_values`. -/
structure ServerValues where
  seconds : Histogram → Option Rat
  sampledKvFractionSeconds : Option Rat
  sampledKvMaxFraction : Option Rat
  counters : Counter → Option Rat

def published (valid : Bool) (value : Delta) : Option Rat :=
  if valid ∧ value.status = .ok then value.value else none

/-- The phases and counters that are published. -/
def publishedPhases : List Histogram := [.prefill, .decode]

def publishedCounters : List Counter := [.generationTokens, .promptTokens, .requestsFinished]

/-- `epoch_values`, as far as it reads the report; other phases and counters have no field. -/
def serverValues (metrics : Option EpochReport) : ServerValues :=
  let valid := metrics.any EpochReport.validBoundaries
  { seconds := fun phase =>
      if phase ∈ publishedPhases then
        metrics.bind fun m => published valid (m.phaseTotals phase).seconds
      else none
    sampledKvFractionSeconds :=
      if valid then metrics.bind EpochReport.sampledKvFractionSeconds else none
    sampledKvMaxFraction := if valid then metrics.bind EpochReport.sampledKvMaxFraction else none
    counters := fun key =>
      if key ∈ publishedCounters then
        metrics.bind fun m => published valid (m.counterDeltas key)
      else none }

end ReedCode.DynamoMetrics
