import Mathlib.Algebra.BigOperators.Group.List.Basic
import Mathlib.Data.Rat.Floor
import ReedCode.Lib.Grouping
import ReedCode.ServerMetrics.Parse

/-!
# Windows over the server's metrics

`_delta`, `_gauge` and `ServerMetricsWindow` of `server_metrics.py`, in exact arithmetic.

* `Counter`, `Histogram`, `Gauge` — the keys of the tables, with their series.
* `delta`, `gauge` — one counter over some snapshots, one gauge of a snapshot.
* `Window.run` — what scrapes leave in a window.
* `report` — the report of a window.
-/

set_option autoImplicit false

namespace ReedCode.ServerMetrics

abbrev Series := FinMap Labels Rat

abbrev Snapshot := Metrics Rat

/-! ## Tables -/

inductive Counter where
  | promptTokens
  | generationTokens
  | prefixCacheQueriesTokens
  | prefixCacheHitsTokens
  | requestsFinished
  deriving DecidableEq, Repr

inductive Histogram where
  | prefill
  | decode
  | queue
  | timeToFirstToken
  | endToEnd
  deriving DecidableEq, Repr

inductive Gauge where
  | kvCacheUsageFraction
  | requestsRunning
  | requestsWaiting
  deriving DecidableEq, Repr

def Counter.all : List Counter :=
  [.promptTokens, .generationTokens, .prefixCacheQueriesTokens, .prefixCacheHitsTokens,
    .requestsFinished]

def Histogram.all : List Histogram := [.prefill, .decode, .queue, .timeToFirstToken, .endToEnd]

def Gauge.all : List Gauge := [.kvCacheUsageFraction, .requestsRunning, .requestsWaiting]

/-- `COUNTERS[key]`. -/
def Counter.aliases : Counter → List Text
  | .promptTokens => ["vllm:prompt_tokens_total".toList, "vllm:prompt_tokens".toList]
  | .generationTokens => ["vllm:generation_tokens_total".toList, "vllm:generation_tokens".toList]
  | .prefixCacheQueriesTokens =>
    ["vllm:prefix_cache_queries_total".toList, "vllm:prefix_cache_queries".toList]
  | .prefixCacheHitsTokens => ["vllm:prefix_cache_hits_total".toList, "vllm:prefix_cache_hits".toList]
  | .requestsFinished => ["vllm:request_success_total".toList, "vllm:request_success".toList]

/-- `HISTOGRAMS[key]`. -/
def Histogram.metric : Histogram → Text
  | .prefill => "vllm:request_prefill_time_seconds".toList
  | .decode => "vllm:request_decode_time_seconds".toList
  | .queue => "vllm:request_queue_time_seconds".toList
  | .timeToFirstToken => "vllm:time_to_first_token_seconds".toList
  | .endToEnd => "vllm:e2e_request_latency_seconds".toList

/-- `GAUGES[key]`. -/
def Gauge.aliases : Gauge → List Text
  | .kvCacheUsageFraction => ["vllm:kv_cache_usage_perc".toList]
  | .requestsRunning => ["vllm:num_requests_running".toList]
  | .requestsWaiting => ["vllm:num_requests_waiting".toList]

def Histogram.countName (h : Histogram) : Text := h.metric ++ "_count".toList

def Histogram.sumName (h : Histogram) : Text := h.metric ++ "_sum".toList

example : counters.map Prod.snd = Counter.all.map Counter.aliases := rfl

example : histograms.map Prod.snd = Histogram.all.map Histogram.metric := rfl

example : gauges.map Prod.snd = Gauge.all.map Gauge.aliases := rfl

/-! ## Counters -/

/-- `a == b` of two series, whatever their order. -/
def sameSeries (a b : Series) : Bool :=
  a.keys.all (fun k => b.get? k = a.get? k) && b.keys.all fun k => a.get? k = b.get? k

def sameSeries? : Option Series → Option Series → Bool
  | some a, some b => sameSeries a b
  | none, none => true
  | _, _ => false

/-- `a.keys() == b.keys()`. -/
def sameKeys (a b : Series) : Bool := a.keys.all b.contains && b.keys.all a.contains

inductive DeltaStatus where
  | ok
  | missing
  | seriesChanged
  | counterReset
  | scrapeFailed
  | serverRestarted
  | identityUnavailable
  deriving DecidableEq, Repr

structure Delta where
  value : Option Rat
  status : DeltaStatus
  deriving DecidableEq, Repr

/-- A series falls between two snapshots that have the same keys. -/
def falls (before after : Series) : Bool :=
  before.entries.any fun e => (after.get? e.1).any fun x => x < e.2

def createdName (name : Text) : Text :=
  removesuffix (removesuffix (removesuffix name "_total".toList) "_sum".toList) "_count".toList ++
    "_created".toList

/-- `sum(last[key] - value for key, value in first.items())`. -/
def increase (first last : Series) : Rat :=
  (first.entries.map fun e => (last.get? e.1).getD 0 - e.2).sum

/-- The name under which the first snapshot has a counter. -/
def chosenName (first : Snapshot) (aliases : List Text) : Option Text :=
  aliases.find? fun name => first.contains name

/-- `_delta(snapshots, aliases)`; it is not called without a snapshot. -/
def delta (snapshots : List Snapshot) (aliases : List Text) : Delta :=
  match snapshots with
  | [] => ⟨none, .missing⟩
  | first :: rest =>
    match chosenName first aliases with
    | none => ⟨none, .missing⟩
    | some name =>
      match first.get? name, rest.mapM (FinMap.get? · name) with
      | some start, some others =>
        let created := fun sample : Snapshot => sample.get? (createdName name)
        if others.any fun values => !sameKeys values start then ⟨none, .seriesChanged⟩
        else if rest.any fun sample => !sameSeries? (created sample) (created first) then
          ⟨none, .counterReset⟩
        else if ((start :: others).zip others).any fun p => falls p.1 p.2 then
          ⟨none, .counterReset⟩
        else ⟨some (increase start (others.getLast?.getD start)), .ok⟩
      | _, _ => ⟨none, .missing⟩

/-! ## Gauges -/

/-- The values of the first alias that has any. -/
def gaugeValues (snapshot : Snapshot) (aliases : List Text) : Option (List Rat) :=
  aliases.findSome? fun name =>
    ((snapshot.get? name).filter fun series => !series.entries.isEmpty).map fun series =>
      series.entries.map Prod.snd

/-- `_gauge(snapshot, GAUGES[key], maximum)`, where only the cache fraction takes the maximum. -/
def gauge (snapshot : Option Snapshot) (key : Gauge) : Option Rat :=
  (snapshot.bind fun s => gaugeValues s key.aliases).bind fun values =>
    if key = .kvCacheUsageFraction then values.max? else some values.sum

/-! ## Windows -/

inductive Phase where
  | before
  | during
  | after
  | drain
  deriving DecidableEq, Repr

/-- How one scrape ends. -/
inductive Scrape where
  | read (atSeconds : Rat) (metrics : Snapshot)
  | failed (error : String)

structure Taken where
  phase : Phase
  atSeconds : Rat
  metrics : Snapshot

structure Window where
  before : Option Snapshot
  after : Option Snapshot
  samples : List Taken
  errors : List String

def Scrape.metrics? : Scrape → Option Snapshot
  | .read _ metrics => some metrics
  | .failed _ => none

/-- `_scrape`. -/
def Window.scrape (w : Window) (phase : Phase) : Scrape → Window
  | .read atSeconds metrics => { w with samples := w.samples ++ [⟨phase, atSeconds, metrics⟩] }
  | .failed error => { w with errors := w.errors ++ [error] }

/-- The scrapes of one window. -/
structure Scrapes where
  before : Scrape
  during : List Scrape
  after : Scrape

/-- A window around a call. -/
def Window.run (scrapes : Scrapes) : Window :=
  let w : Window := (⟨none, none, [], []⟩ : Window).scrape .before scrapes.before
  let w := scrapes.during.foldl (fun w s => w.scrape .during s) w
  { w.scrape .after scrapes.after with
    before := scrapes.before.metrics?
    after := scrapes.after.metrics? }

/-! ## The report -/

structure CounterReport where
  delta : Delta
  unit : String
  metric : Option Text

structure HistogramReport where
  metric : Text
  count : Option Rat
  sumSeconds : Option Rat
  meanSeconds : Option Rat
  status : DeltaStatus

structure GaugeReport where
  metric : Option Text
  unit : String
  before : Option Rat
  after : Option Rat
  duringSampleCount : Nat
  duringSampledMax : Option Rat

inductive ReportStatus where
  | ok
  | partly
  | unavailable
  deriving DecidableEq, Repr

structure Report where
  status : ReportStatus
  scope : String
  sampleIntervalSeconds : Rat
  successfulScrapes : Nat
  failedScrapes : Nat
  errors : List String
  serverRestarted : Bool
  counterDeltas : Counter → CounterReport
  histograms : Histogram → HistogramReport
  gauges : Gauge → GaugeReport
  attributionWarning : Bool
  warnings : List String

/-- Some snapshot has another process start than the first one. -/
def restarted (snapshots : List Snapshot) : Bool :=
  match snapshots with
  | [] => false
  | first :: rest =>
    rest.any fun sample => !sameSeries? (sample.get? processStart) (first.get? processStart)

def Window.snapshots (w : Window) : List Snapshot := w.samples.map Taken.metrics

def Window.boundariesValid (w : Window) : Bool := w.before.isSome && w.after.isSome

def Window.delta (w : Window) (aliases : List Text) : Delta :=
  if !w.boundariesValid then ⟨none, .scrapeFailed⟩
  else if restarted w.snapshots then ⟨none, .serverRestarted⟩
  else ServerMetrics.delta w.snapshots aliases

def Window.during (w : Window) : List Snapshot :=
  (w.samples.filter fun s => s.phase = .during).map Taken.metrics

def Window.counter (w : Window) (key : Counter) : CounterReport where
  delta := w.delta key.aliases
  unit := if key = .requestsFinished then "requests" else "tokens"
  metric := w.before.bind fun before => chosenName before key.aliases

def Window.histogram (w : Window) (key : Histogram) : HistogramReport :=
  let count := w.delta [key.countName]
  let total := w.delta [key.sumName]
  let valid := count.status = .ok ∧ total.status = .ok
  { metric := key.metric
    count := if valid then count.value else none
    sumSeconds := if valid then total.value else none
    meanSeconds :=
      if valid then count.value.bind fun n =>
        if 0 < n then total.value.map fun t => t / n else none
      else none
    status := if count.status ≠ .ok then count.status else total.status }

def Window.gauge (w : Window) (key : Gauge) : GaugeReport :=
  let values := w.during.filterMap fun s => ServerMetrics.gauge (some s) key
  { metric := key.aliases.head?
    unit := if key = .kvCacheUsageFraction then "fraction" else "requests"
    before := ServerMetrics.gauge w.before key
    after := ServerMetrics.gauge w.after key
    duringSampleCount := values.length
    duringSampledMax := values.max? }

def requestGauges : List Gauge := [.requestsRunning, .requestsWaiting]

/-- `value is not None and value > 0`. -/
def positive (value : Option Rat) : Bool := value.any fun x => 0 < x

def Window.busy (w : Window) : Bool :=
  requestGauges.any fun key => positive (w.gauge key).before || positive (w.gauge key).after

def Window.concurrent (w : Window) : Bool :=
  w.during.any fun s => 1 < (requestGauges.map fun key => (ServerMetrics.gauge (some s) key).getD 0).sum

def Window.idleUnknown (w : Window) : Bool :=
  requestGauges.any fun key => (w.gauge key).before = none || (w.gauge key).after = none

/-- `_report`. -/
def Window.report (w : Window) (sampleInterval : Rat) : Report :=
  let finished := (w.counter .requestsFinished).delta.value
  let available := (Counter.all.any fun key => (w.counter key).delta.value.isSome) ||
    (Histogram.all.any fun key => (w.histogram key).sumSeconds.isSome) ||
    Gauge.all.any fun key => (w.gauge key).before.isSome || (w.gauge key).duringSampleCount ≠ 0
  let complete := (Counter.all.all fun key => (w.counter key).delta.status = .ok) &&
    Histogram.all.all fun key => (w.histogram key).status = .ok
  { status :=
      if complete && w.errors.isEmpty then .ok else if available then .partly else .unavailable
    scope := "server_window"
    sampleIntervalSeconds := sampleInterval
    successfulScrapes := w.samples.length
    failedScrapes := w.errors.length
    errors := Grouping.sortedSet w.errors
    serverRestarted := restarted w.snapshots
    counterDeltas := w.counter
    histograms := w.histogram
    gauges := w.gauge
    attributionWarning := w.busy || w.concurrent || w.idleUnknown || finished ≠ some 1
    warnings :=
      ["Server-wide metrics require a dedicated idle server; sampling cannot rule out other traffic.",
        "Server phase times are wall times, not GPU kernel times. Sampled occupancy can miss the peak."] ++
      (if w.busy || w.concurrent || finished.any fun n => 1 < n then
        ["Other or unfinished requests were observed; do not attribute these deltas to one call."]
      else []) ++
      (if finished ≠ some 1 then
        ["Exactly one completion was not observed. Metrics may be missing or published after the final scrape."]
      else []) ++
      if w.idleUnknown then
        ["Idle server boundaries could not be checked because request gauges were missing."]
      else [] }

end ReedCode.ServerMetrics
