import ReedCode.HarborAgent.Backend
import ReedCode.Lib.FinMap
import Mathlib.Data.Rat.Floor

/-!
# The agent loop

`ReedCodeAgent.run` of `reedcode_harbor_agent.py` as explicit state passing.

* `Host` holds what the run does not compute: what every await delivers (a value, an
  exception or a cancellation), the readings of the clock, and the reported metrics.
* `AgentState` holds the local variables of `run`, the lines of its trace and its context, and
  three history variables that the source does not keep: the messages of the Chat requests
  sent, the number of model calls begun, and the tool calls begun.
* A duration is an exact rational number of milliseconds.
-/

set_option autoImplicit false

namespace ReedCode.HarborAgent

/-! ## Settings -/

inductive ModelApi where
  | responses
  | chat
  deriving DecidableEq, Repr

def ModelApi.text : ModelApi → String
  | .responses => "responses"
  | .chat => "chat"

inductive OutputPolicy where
  | head
  | headTail
  deriving DecidableEq, Repr

def OutputPolicy.text : OutputPolicy → String
  | .head => "head"
  | .headTail => "head_tail"

/-- `Settings` as `__post_init__` lets them pass; `dynamo` is `speculative_prefill`. -/
structure Settings where
  maxTurns : Nat
  maxToolOutput : Nat
  toolTimeout : Nat
  outputPolicy : OutputPolicy
  modelApi : ModelApi
  maxOutputTokens : Option Nat
  serverMetricsUrl : Option String
  metricsSampleInterval : Rat
  dynamo : Option Bool
  captureRequests : Bool
  limits_pos : 0 < maxTurns ∧ 0 < maxToolOutput ∧ 0 < toolTimeout
  tokens_pos : ∀ n, maxOutputTokens = some n → 0 < n
  interval_pos : 0 < metricsSampleInterval
  dynamo_chat : dynamo ≠ none → modelApi = .chat ∧ serverMetricsUrl.getD "" = ""
  capture_dynamo : captureRequests = true → dynamo ≠ none

/-- A session id that `request_options` lets pass. -/
structure SessionId where
  text : String
  visible : text ≠ "" ∧ ∀ c ∈ text.toList, 33 ≤ c.toNat ∧ c.toNat ≤ 126

/-! ## The host -/

/-- The metadata of `retain_output`. -/
structure Retention where
  outputPolicy : String
  outputLimitChars : Nat
  truncated : Bool
  originalOutputChars : Nat
  originalOutputBytes : Nat
  retainedOutputChars : Nat
  retainedOutputBytes : Nat

structure ToolObservation where
  text : String
  success : Bool
  retention : Retention

/-- `ServerMetricsWindow.result`; a report of scrapes has its gauges. -/
structure ServerMetrics where
  fields : Fields
  gauges : fields.lookup "status" = some (.str "ok") ∨ fields.lookup "status" = some (.str "partial") →
    ∃ gauges gauge, fields.lookup "gauges" = some (.dict gauges) ∧
      gauges.lookup "kv_cache_usage_fraction" = some (.dict gauge)

/-- What the awaits of a run deliver, by turn and by number of the call in its turn, and what
it reads of the world besides. -/
structure Host where
  openClient : Except PyException Unit
  enterMetrics : Nat → Except PyException Unit
  /-- The Responses API. -/
  respond : Nat → Except PyException ModelResponse
  /-- The Chat API, with the timing of a stream. -/
  complete : Nat → Except PyException (Completion × Value)
  exitMetrics : Nat → Except PyException Unit
  execute : Nat → Nat → Except PyException ToolObservation
  closeClient : Except PyException Unit
  /-- The client of the final notice, its request (id and usage), and its end. -/
  openNotice : Except PyException Unit
  notify : Except PyException (Value × Value)
  closeNotice : Except PyException Unit
  /-- The file of the final answer. -/
  writeAnswer : Except PyException Unit
  sessionId : SessionId
  startedAt : String
  /-- Milliseconds since the start when a line of the trace is written. -/
  elapsed : Nat → Rat
  latency : Nat → Rat
  toolTime : Nat → Nat → Rat
  noticeTime : Rat
  wallTime : Rat
  metricsResult : Nat → ServerMetrics
  failedTiming : Nat → Value

/-- One call of `run`, with the trace and the metadata it finds. -/
structure AgentRun where
  settings : Settings
  modelName : String
  /-- Whether `OPENAI_BASE_URL` is set. -/
  baseUrl : Bool
  instruction : String
  older : List Fields
  metadata : FinMap String Value
  host : Host

/-! ## State -/

structure AgentContext where
  nInputTokens : Option Int
  nCacheTokens : Option Int
  nOutputTokens : Option Int
  metadata : FinMap String Value

structure AgentState where
  history : List HistoryItem
  trace : List Fields
  totalInput : Option Int
  totalCached : Option Int
  totalOutput : Option Int
  modelCalls : Nat
  toolCallsTotal : Nat
  toolFailures : Nat
  modelMs : Rat
  toolMs : Rat
  stopReason : String
  context : AgentContext
  finalAnswer : Option String
  requests : List (List Value)
  attempts : Nat
  executed : List (Nat × FunctionCall)

def addUsage : Option Int → Option Int → Option Int
  | some total, some value => some (total + value)
  | _, _ => none

/-- `round(x, digits)`: to the nearest, a tie to the even neighbour. -/
def roundTo (digits : Nat) (x : Rat) : Rat :=
  let scaled := x * 10 ^ digits
  let floor := scaled.floor
  let rest := scaled - floor
  let nearest :=
    if rest < 1 / 2 then floor
    else if rest > 1 / 2 then floor + 1
    else if floor % 2 = 0 then floor else floor + 1
  nearest / 10 ^ digits

/-- `str.isspace` of one character. -/
def isSpace (c : Char) : Bool :=
  let n := c.toNat
  (9 ≤ n && n ≤ 13) || (28 ≤ n && n ≤ 32) || n == 0x85 || n == 0xa0 || n == 0x1680 ||
    (0x2000 ≤ n && n ≤ 0x200a) || n == 0x2028 || n == 0x2029 || n == 0x202f || n == 0x205f ||
    n == 0x3000

/-- Nothing is left of the text after `strip`. -/
def blank (text : Option String) : Bool := (text.getD "").toList.all isSpace

/-- A function tool whose parameters are required strings. -/
def stringTool (name description : String) (parameters : List String) : Fields :=
  [("type", .str "function"), ("name", .str name), ("description", .str description),
    ("parameters", .dict [("type", .str "object"),
      ("properties", .dict (parameters.map fun p => (p, .dict [("type", .str "string")]))),
      ("required", .list (parameters.map .str)), ("additionalProperties", .bool false)]),
    ("strict", .bool true)]

def TOOLS : List Fields :=
  [stringTool "read_file" "Read a text file in the coding workspace." ["path"],
    stringTool "write_file" "Write complete contents to a file." ["path", "content"],
    stringTool "bash" "Run a shell command in the coding workspace." ["command"]]

def INSTRUCTIONS : String :=
  "You are a coding agent working inside a repository. " ++
    "Inspect files, run commands, modify files when needed, " ++
    "and verify your work before finishing."

namespace AgentRun

/-! ## The trace -/

def session (run : AgentRun) : Option String :=
  run.settings.dynamo.map fun _ => run.host.sessionId.text

/-- A line of the trace: in a session it carries the session and the time. -/
def stamp (run : AgentRun) (line : Nat) (event : Fields) : Fields :=
  match run.session with
  | some sessionId => [("session_id", .str sessionId),
      ("elapsed_ms", .float (roundTo 3 (run.host.elapsed line)))] ++ event
  | none => event

def log (run : AgentRun) (event : Fields) (s : AgentState) : AgentState :=
  { s with trace := s.trace ++ [run.stamp s.trace.length event] }

def boundary (run : AgentRun) (phase : String) (fields : Fields) (s : AgentState) : AgentState :=
  match run.session with
  | some _ => run.log ([("type", .str "lifecycle"), ("phase", .str phase)] ++ fields) s
  | none => s

def version : String := "0.4.3"

def runConfig (run : AgentRun) : Fields :=
  [("type", .str "run_config"), ("started_at", .str run.host.startedAt),
    ("agent_version", .str version), ("model", .str run.modelName),
    ("max_turns", .int run.settings.maxTurns),
    ("max_tool_output_chars", .int run.settings.maxToolOutput),
    ("output_policy", .str run.settings.outputPolicy.text),
    ("tool_timeout_sec", .int run.settings.toolTimeout),
    ("model_api", .str run.settings.modelApi.text),
    ("max_output_tokens", optionValue (fun n : Nat => .int n) run.settings.maxOutputTokens),
    ("server_metrics_enabled", .bool (run.settings.serverMetricsUrl.any (· ≠ ""))),
    ("metrics_sample_interval_sec", .float run.settings.metricsSampleInterval),
    ("sdk_max_retries", .int 0), ("capture_requests", .bool run.settings.captureRequests),
    ("dynamo", optionValue (fun speculativePrefill => .dict
      [("speculative_prefill", .bool speculativePrefill),
        ("hint_application", .str "unverified")]) run.settings.dynamo)]

/-- The state when the configuration is checked, before the first line of the trace. -/
def initial (run : AgentRun) : AgentState where
  history := [.plain [("role", .str "user"), ("content", .str run.instruction)]]
  trace := run.older
  totalInput := some 0
  totalCached := some 0
  totalOutput := some 0
  modelCalls := 0
  toolCallsTotal := 0
  toolFailures := 0
  modelMs := 0
  toolMs := 0
  stopReason := "error"
  context := ⟨none, none, none, run.metadata⟩
  finalAnswer := none
  requests := []
  attempts := 0
  executed := []

/-! ## One model call -/

/-- `type(exc).__name__`. -/
def errorType : PyException → String
  | .cancelled => "CancelledError"
  | .error name => name

/-- `create_response`: the request is captured, sent, and its reply read. -/
def createResponse (run : AgentRun) (turn : Nat) (s : AgentState) :
    Except PyException ModelResponse × AgentState :=
  match run.settings.modelApi with
  | .responses => (run.host.respond turn, { s with attempts := s.attempts + 1 })
  | .chat =>
    match chatRequest run.modelName INSTRUCTIONS s.history TOOLS run.settings.maxOutputTokens
        (run.settings.dynamo.map fun on => (on, run.host.sessionId.text)) with
    | .error e => (.error e, s)
    | .ok (messages, request) =>
      let s :=
        if run.settings.captureRequests then
          run.log [("type", .str "request"), ("turn", .int turn),
            ("request", .dict (capturedRequest request))] s
        else s
      (do
        let (completion, timing) ← run.host.complete turn
        readCompletion completion (if run.settings.dynamo.isSome then timing else .null),
        { s with requests := s.requests ++ [messages], attempts := s.attempts + 1 })

/-- What is logged of a call that raises. -/
def logFailure (run : AgentRun) (turn : Nat) (e : PyException) (s : AgentState) : AgentState :=
  let s := match run.session with
    | some _ => run.log [("type", .str "failed_inference"), ("turn", .int turn),
        ("error_type", .str (errorType e)), ("stream_timing", run.host.failedTiming turn)] s
    | none => s
  if run.settings.serverMetricsUrl.any (· ≠ "") then
    run.log [("type", .str "failed_inference_metrics"), ("turn", .int turn),
      ("server_metrics", .dict (run.host.metricsResult turn).fields)] s
  else s

/-- The model call inside its metrics window. -/
def insideMetrics (run : AgentRun) (turn : Nat) (s : AgentState) :
    Except PyException ModelResponse × AgentState :=
  match run.host.enterMetrics turn with
  | .error e => (.error e, s)
  | .ok () =>
    let (result, s) := run.createResponse turn s
    match run.host.exitMetrics turn with
    | .error e => (.error e, s)
    | .ok () => (result, s)

/-- The model call with what is logged when it fails. -/
def callModel (run : AgentRun) (turn : Nat) (s : AgentState) :
    Except PyException ModelResponse × AgentState :=
  match run.insideMetrics turn s with
  | (.error e, s) => (.error e, run.logFailure turn e s)
  | (.ok response, s) => (.ok response, s)

/-- The `inference` line of a reply. -/
def inferenceFields (run : AgentRun) (turn : Nat) (response : ModelResponse) : Fields :=
  [("type", .str "inference"), ("turn", .int turn),
    ("latency_ms", .float (roundTo 2 (run.host.latency turn))),
    ("input_tokens", optionValue .int response.usage.inputTokens),
    ("cached_input_tokens", optionValue .int response.usage.cachedTokens),
    ("output_tokens", optionValue .int response.usage.outputTokens),
    ("tool_calls", .int response.toolCalls.length),
    ("served_model", optionValue .str response.model),
    ("server_metrics", .dict (run.host.metricsResult turn).fields),
    ("completion_id", optionValue .str response.completionId),
    ("stream_timing", response.streamTiming)] ++ (responseTermination response).fields

/-- The assistant messages of a reply, captured. -/
def logMessages (run : AgentRun) (turn : Nat) : List OutputItem → AgentState → AgentState
  | [], s => s
  | .chatMessage message :: items, s =>
    logMessages run turn items (run.log [("type", .str "assistant_message"),
      ("turn", .int turn), ("message", .dict message)] s)
  | _ :: items, s => logMessages run turn items s

/-- The totals and the lines of the trace after a reply. -/
def recordReply (run : AgentRun) (turn : Nat) (response : ModelResponse) (s : AgentState) :
    AgentState :=
  let s := { s with
    modelCalls := s.modelCalls + 1
    modelMs := s.modelMs + run.host.latency turn
    totalInput := addUsage s.totalInput response.usage.inputTokens
    totalCached := addUsage s.totalCached response.usage.cachedTokens
    totalOutput := addUsage s.totalOutput response.usage.outputTokens }
  let s := run.log (run.inferenceFields turn response) s
  let s := if run.settings.captureRequests then run.logMessages turn response.output s else s
  { s with context := { s.context with
      nInputTokens := s.totalInput
      nCacheTokens := s.totalCached
      nOutputTokens := s.totalOutput } }

/-! ## Tools -/

def Retention.fields (r : Retention) : Fields :=
  [("output_policy", .str r.outputPolicy), ("output_limit_chars", .int r.outputLimitChars),
    ("truncated", .bool r.truncated), ("original_output_chars", .int r.originalOutputChars),
    ("original_output_bytes", .int r.originalOutputBytes),
    ("retained_output_chars", .int r.retainedOutputChars),
    ("retained_output_bytes", .int r.retainedOutputBytes)]

def toolFields (run : AgentRun) (turn index : Nat) (call : FunctionCall)
    (result : ToolObservation) : Fields :=
  [("type", .str "tool"), ("turn", .int turn), ("call_id", .str call.callId),
    ("tool", .str call.name),
    ("duration_ms", .float (roundTo 2 (run.host.toolTime turn index))),
    ("output_bytes", .int result.text.utf8ByteSize), ("success", .bool result.success)] ++
    Retention.fields result.retention

def callOutput (call : FunctionCall) (result : ToolObservation) : HistoryItem :=
  .plain [("type", .str "function_call_output"), ("call_id", .str call.callId),
    ("output", .str result.text)]

/-- The calls of a reply, one after another; the first that raises ends them. -/
def runTools (run : AgentRun) (turn : Nat) :
    Nat → List FunctionCall → AgentState → Except PyException Unit × AgentState
  | _, [], s => (.ok (), s)
  | index, call :: calls, s =>
    let s := run.boundary "tool_start" [("turn", .int turn), ("call_id", .str call.callId),
      ("tool", .str call.name)] s
    let s := { s with executed := s.executed ++ [(turn, call)] }
    match run.host.execute turn index with
    | .error e => (.error e, s)
    | .ok result =>
      let s := { s with
        toolCallsTotal := s.toolCallsTotal + 1
        toolFailures := s.toolFailures + if result.success then 0 else 1
        toolMs := s.toolMs + run.host.toolTime turn index }
      let s := run.log (run.toolFields turn index call result) s
      runTools run turn (index + 1) calls
        { s with history := s.history ++ [callOutput call result] }

/-! ## Turns -/

inductive TurnEnd where
  | raised (e : PyException)
  | stopped
  | next

/-- One pass of the loop. -/
def turn (run : AgentRun) (n : Nat) (s : AgentState) : TurnEnd × AgentState :=
  let s := run.boundary "model_start" [("turn", .int n)] s
  match run.callModel n s with
  | (.error e, s) => (.raised e, s)
  | (.ok response, s) =>
    let s := run.recordReply n response s
    if (responseTermination response).outputLimitHit then
      (.stopped, { s with stopReason := "max_output_tokens" })
    else if response.status ≠ some "completed" then (.raised (.error "RuntimeError"), s)
    else
      let s := { s with history := s.history ++ response.output.map .output }
      match response.toolCalls with
      | [] =>
        if blank response.outputText then
          (.stopped, { s with stopReason := "empty_model_response" })
        else
          let s := { s with stopReason := "no_tool_calls" }
          match run.host.writeAnswer with
          | .error e => (.raised e, s)
          | .ok () => (.stopped, { s with finalAnswer := some (response.outputText.getD "") })
      | call :: calls =>
        let s := run.boundary "tools_start" [("turn", .int n),
          ("pending_calls", .int (call :: calls).length)] s
        match run.runTools n 0 (call :: calls) s with
        | (.error e, s) => (.raised e, s)
        | (.ok (), s) => (.next, run.boundary "tools_complete" [("turn", .int n)] s)

/-- The `for` loop from turn `n` on, with its `else` branch after the last turn. -/
def loop (run : AgentRun) : Nat → Nat → AgentState → Except PyException Unit × AgentState
  | 0, _, s => (.ok (), { s with stopReason := "max_turns" })
  | left + 1, n, s =>
    match run.turn n s with
    | (.raised e, s) => (.error e, s)
    | (.stopped, s) => (.ok (), s)
    | (.next, s) => loop run left (n + 1) s

/-- The body of the `try`: the loop inside its client. -/
def body (run : AgentRun) (s : AgentState) : Except PyException Unit × AgentState :=
  match run.host.openClient with
  | .error e => (.error e, s)
  | .ok () =>
    let (result, s) := run.loop run.settings.maxTurns 1 s
    match run.host.closeClient with
    | .error e => (.error e, s)
    | .ok () => (result, s)

/-- The `except` clauses; both raise again. -/
def handle (run : AgentRun) (result : Except PyException Unit) (s : AgentState) : AgentState :=
  match result with
  | .ok () => s
  | .error .cancelled => { s with stopReason := "cancelled_or_task_timeout" }
  | .error (.error name) => run.log [("type", .str "agent_error"), ("error_type", .str name)]
      { s with stopReason := "error" }

/-! ## The end of a run -/

/-- `finish_session`: an exception becomes a status, a cancellation passes through. -/
def finishSession (run : AgentRun) : Except PyException Fields :=
  match run.host.notify with
  | .ok (completionId, usage) => .ok [("status", .str "sent"),
      ("latency_ms", .float run.host.noticeTime), ("completion_id", completionId),
      ("usage", usage)]
  | .error (.error name) => .ok [("status", .str "failed"), ("error_type", .str name),
      ("latency_ms", .float run.host.noticeTime), ("usage", .null)]
  | .error .cancelled => .error .cancelled

/-- The final notice of a session, inside a client of its own. -/
def finalNotice (run : AgentRun) (s : AgentState) : Except PyException Unit × AgentState :=
  match run.session with
  | none => (.ok (), s)
  | some _ =>
    match run.host.openNotice with
    | .error e => (.error e, s)
    | .ok () =>
      let result := run.finishSession
      match run.host.closeNotice with
      | .error e => (.error e, s)
      | .ok () =>
        match result with
        | .error e => (.error e, s)
        | .ok notice => (.ok (), run.log (("type", .str "session_final") :: notice) s)

def freshTokens : Option Int → Option Int → Option Int
  | some input, some cached => some (input - cached)
  | _, _ => none

/-- The reasons that end the loop in order. -/
def orderly : List String :=
  ["no_tool_calls", "max_turns", "max_output_tokens", "empty_model_response"]

def summary (run : AgentRun) (s : AgentState) : Fields :=
  [("agent_version", .str version), ("stop_reason", .str s.stopReason),
    ("agent_completed", .bool (s.stopReason == "no_tool_calls")),
    ("output_limit_hit", if orderly.contains s.stopReason then
      .bool (s.stopReason == "max_output_tokens") else .null),
    ("model_calls", .int s.modelCalls), ("tool_calls", .int s.toolCallsTotal),
    ("tool_failures", .int s.toolFailures),
    ("total_input_tokens", optionValue .int s.totalInput),
    ("total_cached_input_tokens", optionValue .int s.totalCached),
    ("total_output_tokens", optionValue .int s.totalOutput),
    ("fresh_input_tokens", optionValue .int (freshTokens s.totalInput s.totalCached)),
    ("model_latency_ms", .float (roundTo 2 s.modelMs)),
    ("tool_latency_ms", .float (roundTo 2 s.toolMs)),
    ("wall_time_ms", .float (roundTo 2 run.host.wallTime)),
    ("max_tool_output_chars", .int run.settings.maxToolOutput),
    ("tool_timeout_sec", .int run.settings.toolTimeout),
    ("output_policy", .str run.settings.outputPolicy.text)]

/-- The task summary, in the metadata and as a line of the trace. -/
def summarize (run : AgentRun) (s : AgentState) : AgentState :=
  let summary := run.summary s
  run.log (("type", .str "task_summary") :: summary)
    { s with context := { s.context with
        metadata := summary.foldl (fun m f => m.insert f.1 f.2) s.context.metadata } }

/-- The `finally` clause around the outcome of the `try`: what it raises replaces it. -/
def finish (run : AgentRun) (result : Except PyException Unit) (s : AgentState) :
    Except PyException Unit × AgentState :=
  match run.finalNotice s with
  | (.error e, s) => (.error e, s)
  | (.ok (), s) => (result, run.summarize s)

/-- The checks at the start of `run`. -/
def configured (run : AgentRun) : Bool :=
  run.modelName ≠ "" && (run.settings.dynamo.isNone || run.baseUrl)

/-- The state after the body of the `try` and its `except` clauses. -/
def handled (run : AgentRun) : Except PyException Unit × AgentState :=
  let (result, s) := run.body (run.log run.runConfig run.initial)
  (result, run.handle result s)

/-- `ReedCodeAgent.run`: how it ends, and the state it leaves. -/
def execute (run : AgentRun) : Except PyException Unit × AgentState :=
  if run.configured then
    let (result, s) := run.handled
    run.finish result s
  else (.error (.error "ValueError"), run.initial)

end AgentRun

end ReedCode.HarborAgent
