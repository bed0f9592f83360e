import ReedCode.HarborAgent.Report
import ReedCode.PyValue

/-!
# Replay workloads

`validate_workload` and `capture_workload` of `dynamo_replay.py`, and the request that
`run_epoch` sends for a turn of a workload.

* A workload is a JSON value, the lines of a trace are objects; a request that is no object
  raises, here always a `TypeError`.
* The digest of the trace is given.
-/

set_option autoImplicit false

namespace ReedCode.Replay

open HarborAgent

/-- The fields of a request that can be replayed. -/
def REQUEST_FIELDS : List String :=
  ["messages", "tools", "tool_choice", "max_completion_tokens", "temperature", "top_p", "seed",
    "stop", "parallel_tool_calls"]

/-! ## Access -/

/-- `value.get(key, default)`. -/
def getField (value : Value) (key : String) (default : Value) : Except PyException Value :=
  match value with
  | .dict fields => .ok (getOr fields key default)
  | _ => .error (.error "AttributeError")

/-- `event[key]`. -/
def require (event : Fields) (key : String) : Except PyException Value :=
  match event.lookup key with
  | some value => .ok value
  | none => .error (.error "KeyError")

/-- `value[key]`, where an object is needed. -/
def item (value : Value) (key : String) : Except PyException Value :=
  match value with
  | .dict fields => require fields key
  | _ => .error (.error "TypeError")

/-- What `for x in value` goes through. -/
def elements (value : Value) : Except PyException (List Value) :=
  match value.elements? with
  | some items => .ok items
  | none => .error (.error "TypeError")

def valueError : PyException := .error "ValueError"

/-! ## Validation -/

/-- A request has known fields, messages and a token budget. -/
def replayable (request : Fields) : Bool :=
  request.all (fun f => REQUEST_FIELDS.contains f.1) &&
    (match request.lookup "messages" with
      | some (.list messages) => !messages.isEmpty
      | _ => false) &&
    match request.lookup "max_completion_tokens" with
    | some (.int budget) => decide (1 ≤ budget)
    | _ => false

def validateTurn (turn : Value) : Except PyException Unit := do
  match ← item turn "request" with
  | .dict request => Except.failIf (replayable request = false) valueError
  | _ => .error (.error "TypeError")

def validateWorkflow (workflow : Value) : Except PyException Unit := do
  let turns ← getField workflow "turns" .null
  Except.failIf (turns.truthy = false) valueError
  let arrival ← getField workflow "arrival_ms" (.int 0)
  let turns ← elements turns
  let waits ← turns.mapM fun turn => getField turn "wait_ms" (.int 0)
  Except.failIf ((arrival :: waits).all finiteNonnegative = false) valueError
  turns.forM validateTurn

def validateWorkload (workload : Value) : Except PyException Value := do
  let workflows ← getField workload "workflows" (.list [])
  let version ← getField workload "schema_version" .null
  Except.failIf (version.pyEq (.int 1) = false ∨ workflows.truthy = false) valueError
  let workflows ← elements workflows
  let ids ← workflows.mapM fun workflow => getField workflow "id" .null
  Except.failIf (ids.all (fun id => id.isStr && id.truthy) = false ∨ ¬ ids.Nodup) valueError
  workflows.forM validateWorkflow
  return workload

/-! ## Capture -/

/-- `event["turn"] == number`. -/
def ofTurn (number : Value) (event : Fields) : Except PyException Bool := do
  return (← require event "turn").pyEq number

/-- The duration of a tool call, if the turn before made it, on top of those so far. -/
def addWait (number total : Value) (event : Fields) : Except PyException Value := do
  let turn ← require event "turn"
  let previous ← arithmetic (· - ·) (· - ·) number (.int 1)
  if turn.pyEq previous then arithmetic (· + ·) (· + ·) total (← require event "duration_ms")
  else return total

/-- The turn of a `request` line. -/
def captureTurn (events : List Fields) (event : Fields) : Except PyException Value := do
  let number ← require event "turn"
  let responses ← (ofType "assistant_message" events).filterM (ofTurn number)
  let inference ← (ofType "inference" events).filterM (ofTurn number)
  match responses, inference with
  | [response], [reply] =>
    Except.failIf (get reply "response_status" ≠ .str "completed") valueError
    match ← require event "request" with
    | .dict request =>
      let wait ← (ofType "tool" events).foldlM (addWait number) (.int 0)
      let message ← require response "message"
      return .dict [("request", .dict (request.filter fun f => f.1 != "model")),
        ("wait_ms", wait), ("expected_message", message)]
    | _ => .error (.error "AttributeError")
  | _, _ => .error valueError

/-- The one configuration of a trace that was recorded with its requests. -/
def captureConfig (events : List Fields) : Except PyException Fields :=
  match ofType "run_config" events with
  | [config] =>
    if get config "capture_requests" = .bool true then .ok config else .error valueError
  | _ => .error valueError

def captureWorkload (sha256 : String) (events : List Fields) : Except PyException Value := do
  Except.failIf (events.any (fun event => (event.lookup "type").isNone) = true)
    (.error "KeyError")
  let config ← captureConfig events
  let turns ← (ofType "request" events).mapM (captureTurn events)
  let summary := (ofType "task_summary" events).getLast?
  Except.failIf (summary.map (get · "stop_reason") ≠ some (.str "no_tool_calls")) valueError
  let model ← require config "model"
  validateWorkload (.dict [("schema_version", .int 1), ("source_model", model),
    ("source_trace_sha256", .str sha256),
    ("workflows", .list [.dict [("id", .str "captured"), ("arrival_ms", .int 0),
      ("turns", .list turns)]])])

/-! ## Replay -/

/-- What `run_epoch` sends for a request: `stream_completion(client, model=model, **request,
**DynamoConfig(on).request_options(session))`. -/
def replayRequest (model : String) (on : Bool) (session : String) (request : Fields) : Fields :=
  ("model", .str model) :: (request ++ requestOptions on session)

/-- The turns of the workflows of a workload. -/
def workflowTurns (workload : Value) : List (List Value) :=
  match workload.get? "workflows" with
  | some (.list workflows) => workflows.map fun workflow =>
    match workflow.get? "turns" with
    | some (.list turns) => turns
    | _ => []
  | _ => []

/-- `turn["request"]` of a turn that passed. -/
def turnRequest (turn : Value) : Fields :=
  match turn.get? "request" with
  | some (.dict request) => request
  | _ => []

end ReedCode.Replay
