import ReedCode.HarborAgent.Backend

/-!
# Reports of a trace

`analyze_trace` of `reporting.py`: what is read back of the lines of a trace.

* The lines are objects; numbers are exact, and a value that is no number raises `TypeError`
  where one is needed.
* `serverMeasurements` — the phase times of the windows around the model calls, when every
  window can be attributed to its call.
-/

set_option autoImplicit false

namespace ReedCode.HarborAgent

/-! ## Values of a line -/

/-- `event.get(key, default)`. -/
def getOr (event : Fields) (key : String) (default : Value) : Value :=
  (event.lookup key).getD default

/-- `event.get(key)`. -/
def get (event : Fields) (key : String) : Value := getOr event key .null

/-- `event.get(key, {})`, where an object is needed. -/
def getDict (event : Fields) (key : String) : Except PyException Fields :=
  match getOr event key (.dict []) with
  | .dict fields => .ok fields
  | _ => .error (.error "AttributeError")

def integer? : Value → Option Int
  | .bool b => some (if b then 1 else 0)
  | .int n => some n
  | _ => none

def number? : Value → Option Rat
  | .float q => some q
  | value => (integer? value).map fun n => (n : Rat)

/-- Arithmetic on two numbers: integers stay integers. -/
def arithmetic (onInt : Int → Int → Int) (onRat : Rat → Rat → Rat) (a b : Value) :
    Except PyException Value :=
  match integer? a, integer? b with
  | some m, some n => .ok (.int (onInt m n))
  | _, _ =>
    match number? a, number? b with
    | some p, some q => .ok (.float (onRat p q))
    | _, _ => .error (.error "TypeError")

/-- `sum(values)` unless one of them is unknown, or there is none. -/
def knownSum (values : List Value) : Except PyException Value :=
  if values.isEmpty || values.any Value.isNull then .ok .null
  else values.foldlM (arithmetic (· + ·) (· + ·)) (.int 0)

/-- `known_sum(...) if events else 0`. -/
def knownSumOrZero (values : List Value) : Except PyException Value :=
  if values.isEmpty then .ok (.int 0) else knownSum values

def finiteNonnegative : Value → Bool
  | .int n => decide (0 ≤ n)
  | .float q => decide (0 ≤ q)
  | _ => false

/-- `value == n`. -/
def equals (value : Value) (n : Int) : Bool := number? value == some (n : Rat)

/-! ## Server windows -/

/-- A counter or histogram of a window that was not interrupted. -/
def validItem : Value → Bool
  | .dict item => !([.str "counter_reset", .str "server_restarted", .str "series_changed"].contains
      (get item "status"))
  | _ => false

def validServerWindow : Value → Bool
  | .dict window =>
    [.str "ok", .str "partial"].contains (get window "status") &&
    get window "attribution_warning" == .bool false &&
    get window "server_restarted" == .bool false &&
    equals (get window "failed_scrapes") 0 &&
    finiteNonnegative (get window "successful_scrapes") &&
    (number? (get window "successful_scrapes")).any (fun n => 2 ≤ n) &&
    match getOr window "counter_deltas" (.dict []), getOr window "histograms" (.dict []) with
    | .dict counters, .dict histograms =>
      (counters ++ histograms).all (fun item => validItem item.2) &&
      match getOr counters "requests_finished" (.dict []) with
      -- A valid completion delta requires both boundary scrapes.
      | .dict finished => get finished "status" == .str "ok" &&
          finiteNonnegative (get finished "value") && equals (get finished "value") 1
      | _ => false
    | _, _ => false
  | _ => false

/-- The fields of a window that is an object. -/
def windowFields : Value → Fields
  | .dict window => window
  | _ => []

/-- The seconds of a phase in one window. -/
def phaseSeconds (phase : String) (window : Value) : Except PyException Value := do
  let histograms ← getDict (windowFields window) "histograms"
  let histogram ← getDict histograms phase
  return if get histogram "status" == .str "ok" && finiteNonnegative (get histogram "count") &&
      equals (get histogram "count") 1 && finiteNonnegative (get histogram "sum_seconds") then
    get histogram "sum_seconds" else .null

def phaseTotal (phase : String) (windows : List Value) : Except PyException Value := do
  let values ← windows.mapM (phaseSeconds phase)
  let total ← knownSum values
  return if finiteNonnegative total then total else .null

/-- The sampled maximum of the cache in one window. -/
def cacheFraction (window : Value) : Except PyException Value := do
  let gauges ← getDict (windowFields window) "gauges"
  let gauge ← getDict gauges "kv_cache_usage_fraction"
  let value := get gauge "during_sampled_max"
  let samples := get gauge "during_sample_count"
  return if get gauge "unit" == .str "fraction" && finiteNonnegative samples &&
      (number? samples).any (fun n => 1 ≤ n) && finiteNonnegative value &&
      (number? value).any (fun n => n ≤ 1) then value else .null

/-- `max(values)`: the first of the largest. -/
def largest : List Value → Value
  | [] => .null
  | value :: values => values.foldl (fun best v =>
      if (number? best).getD 0 < (number? v).getD 0 then v else best) value

structure ServerMeasurements where
  prefillSeconds : Value
  decodeSeconds : Value
  kvSampledMaxFraction : Value

def serverMeasurements (inference : List Fields) : Except PyException ServerMeasurements := do
  let windows := inference.map (get · "server_metrics")
  if windows.isEmpty || !windows.all validServerWindow then return ⟨.null, .null, .null⟩
  let prefill ← phaseTotal "prefill" windows
  let decode ← phaseTotal "decode" windows
  let fractions ← windows.mapM cacheFraction
  return ⟨prefill, decode, if fractions.any Value.isNull then .null else largest fractions⟩

/-! ## The trace -/

structure TraceMetrics where
  inputTokens : Value
  cachedTokens : Value
  outputTokens : Value
  modelCalls : Nat
  toolCalls : Nat
  modelLatencyMs : Value
  toolLatencyMs : Value
  toolOutputBytes : Value
  truncatedCalls : Value
  originalOutputChars : Value
  retainedOutputChars : Value
  telemetryComplete : Bool
  outputLimitHit : Option Bool
  serverMetricsEnabled : Bool
  server : ServerMeasurements
  freshTokens : Value

/-- `event.get("type") == name`. -/
def ofType (name : String) (events : List Fields) : List Fields :=
  events.filter fun event => get event "type" == .str name

/-- The stop reasons that `analyze_trace` takes for a complete trace. -/
def completeReasons : List Value :=
  [.str "no_tool_calls", .str "max_turns", .str "max_output_tokens"]

def reportedLimit (summary : Fields) : Option Bool :=
  match summary.lookup "output_limit_hit" with
  | some (.bool hit) => some hit
  | some _ => none
  | none =>
    if completeReasons.contains (get summary "stop_reason") then
      some (get summary "stop_reason" == .str "max_output_tokens")
    else none

/-- An event that shows metrics of the server. -/
def showsServerMetrics (event : Fields) : Bool :=
  get event "server_metrics_enabled" == .bool true ||
    match get event "server_metrics" with
    | .dict window => !([.null, .str "disabled"].contains (get window "status"))
    | _ => false

def analyzeTrace (events : List Fields) : Except PyException TraceMetrics := do
  let inference := ofType "inference" events
  let tools := ofType "tool" events
  let summary := (ofType "task_summary" events).getLast?.getD []
  let inputTokens ← knownSum (inference.map (get · "input_tokens"))
  let cachedTokens ← knownSum (inference.map (get · "cached_input_tokens"))
  let outputTokens ← knownSum (inference.map (get · "output_tokens"))
  let modelLatencyMs ← knownSum (inference.map (get · "latency_ms"))
  let toolLatencyMs ← knownSumOrZero (tools.map (get · "duration_ms"))
  let toolOutputBytes ← knownSumOrZero (tools.map (get · "output_bytes"))
  let truncatedCalls ← knownSumOrZero (tools.map (get · "truncated"))
  let originalOutputChars ← knownSumOrZero (tools.map (get · "original_output_chars"))
  let retainedOutputChars ← knownSumOrZero (tools.map (get · "retained_output_chars"))
  let server ← serverMeasurements inference
  let freshTokens ← (if inputTokens.isNull || cachedTokens.isNull then .ok .null
    else arithmetic (· - ·) (· - ·) inputTokens cachedTokens)
  return {
    inputTokens, cachedTokens, outputTokens
    modelCalls := inference.length
    toolCalls := tools.length
    modelLatencyMs, toolLatencyMs, toolOutputBytes, truncatedCalls, originalOutputChars
    retainedOutputChars
    telemetryComplete := completeReasons.contains (get summary "stop_reason")
    outputLimitHit := reportedLimit summary
    serverMetricsEnabled := events.any showsServerMetrics
    server := if (ofType "failed_inference_metrics" events).isEmpty then server
      else ⟨.null, .null, .null⟩
    freshTokens }

end ReedCode.HarborAgent
