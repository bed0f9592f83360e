import ReedCode.NextTurn.Predict
import ReedCode.NextTurn.Rolling
import ReedCode.PyText
import ReedCode.PyValue

/-!
# A session of the preparation study

`run_session` and `response_issue` of `next-turn-preparation-20261015/source/controller.py` as
explicit state passing.

* `SessionHost` holds what a run does not compute: the readings of the clock, the token counts, and
  what every await delivers (a value, an exception or a cancellation).
* `SessionState` holds the local variables of `run_session`, the records of the model and the state
  of the policy, and two history variables that the source does not keep: the requests dispatched
  and the tool calls executed.
-/

set_option autoImplicit false

namespace ReedCode.NextTurn

abbrev Fields := List (String × Value)

/-! ## Settings -/

structure Config where
  model : String
  contextLimit : Nat
  maxOutputTokens : Nat
  callsPerTurn : Nat
  sessionSeconds : Rat
  modelSeconds : Rat
  toolSeconds : Rat
  toolOutputChars : Nat
  temperature : Rat
  topP : Rat
  seed : Int

def CONFIG : Config where
  model := "Qwen/Qwen3-8B"
  contextLimit := 32768
  maxOutputTokens := 8192
  callsPerTurn := 5
  sessionSeconds := 600
  modelSeconds := 60
  toolSeconds := 60
  toolOutputChars := 20000
  temperature := 5404319552844595 / 9007199254740992
  topP := 4278419646001971 / 4503599627370496
  seed := 20261015

/-- `body_for`. -/
def Config.body (config : Config) (history : List Value) (cacheSalt : Value) : Value :=
  .dict [("model", .str config.model), ("messages", .list history), ("tools", TOOLS),
    ("tool_choice", .str "auto"), ("stream", .bool true),
    ("stream_options", .dict [("include_usage", .bool true)]),
    ("max_completion_tokens", .int config.maxOutputTokens),
    ("temperature", .float config.temperature), ("top_p", .float config.topP),
    ("seed", .int config.seed),
    ("chat_template_kwargs", .dict [("enable_thinking", .bool true)]),
    ("nvext", .dict [("cache_salt", cacheSalt),
      ("extra_fields", .list [.str "completion_token_ids", .str "engine_data"])])]

theorem CONFIG_body (history : List Value) (cacheSalt : Value) :
    CONFIG.body history cacheSalt = bodyFor (.list history) cacheSalt := rfl

def SYSTEM : String :=
  "You are a coding agent working in /workspace. Inspect the repository, make the requested " ++
    "changes, and run relevant tests. Use the available tools for all file and command operations. " ++
    "The container has no network access. Report what you changed and what you tested."

/-! ## Responses -/

/-- A record of `ChatModel.complete`; its message is the assistant message of `Stream`. -/
structure ModelRow where
  clientRequestId : String
  fields : Fields
  assistant : ∀ message, fields.lookup "message" = some message →
    message.get? "role" = some (.str "assistant")

def ModelRow.get (row : ModelRow) (key : String) : Value := (row.fields.lookup key).getD .null

/-- `a or b`. -/
def pyOr (a b : Value) : Value := if a.truthy then a else b

/-- `message.get("tool_calls") or []`. -/
def toolCalls (message : Value) : Value := pyOr (message.get "tool_calls") (.list [])

/-- `not (value or "").strip()`, for a string or `None`. -/
def blankText : Value → Bool
  | .str s => (PyText.strip s.toList).isEmpty
  | _ => true

/-- What is wrong with the tool calls of a message. -/
def callsIssue (finish message : Value) (calls : List Value) : Option String :=
  let ids := calls.map (·.get "id")
  if calls.any fun call => !call.isObject then some "invalid_tool_calls"
  else if calls = [] ∧ blankText (message.get "content") ∧ blankText (message.get "refusal") then
    some "empty_response"
  else if (ids.any fun id => !id.isStr || !id.truthy) ∨ ¬ ids.Nodup then some "invalid_tool_ids"
  else if calls.any fun call =>
      !(call.get "type").pyEq (.str "function") || !(call.get "function").isObject then
    some "invalid_tool_calls"
  else if finish.pyEq (.str "tool_calls") ∧ calls = [] then some "missing_tool_calls"
  else none

def responseIssue (response : ModelRow) : Option String :=
  if (response.get "error").truthy || !(response.get "done_event").truthy then some "model_error"
  else
    let finish := response.get "finish_reason"
    if finish.pyEq (.str "length") then some "output_limit"
    else if !(finish.pyEq (.str "stop") || finish.pyEq (.str "tool_calls")) then
      some "unsupported_finish_reason"
    else
      let message := pyOr (response.get "message") (.dict [])
      if !message.isObject || ["content", "reasoning", "reasoning_content", "refusal"].any fun key =>
          !(message.get key).isNull && !(message.get key).isStr then
        some "unsupported_message"
      else
        match toolCalls message with
        | .list calls => callsIssue finish message calls
        | _ => some "invalid_tool_calls"

/-! ## The host -/

/-- An exception: its type, its text, and whether it is a `ValueError`. -/
structure Failure where
  name : String
  text : String
  valueError : Bool

inductive Raised where
  | cancelled
  | failed (failure : Failure)

/-- The end of `model.complete`: its record, or a cancellation, when `model.records[-1]` is read. -/
inductive Completion where
  | row (response : ModelRow)
  | cancelled (own last : ModelRow)

structure SessionHost where
  /-- The readings of `time.monotonic()`. -/
  clock : Nat → Rat
  /-- `budget.count`. -/
  count : Value → Except Failure Nat
  /-- The `n`-th model call, with its body and its deadline. -/
  respond : Nat → Value → Rat → Completion
  dispatchedAt : Nat → Nat
  respondedAt : Nat → Nat
  /-- What the tasks of the policy do during an await. -/
  background : Nat → Rolling.State → Rolling.State
  /-- `json.loads`. -/
  loads : Value → Except Failure Value
  /-- `sandbox.invoke`, with the name, the arguments and the seconds left. -/
  invoke : Nat → Value → Value → Rat → Except Raised Value
  /-- `str`. -/
  pyStr : Value → String

structure SessionRun where
  initialPrompt : String
  followups : List String
  cacheSalt : Value
  enabled : Bool
  config : Config
  host : SessionHost

/-! ## State -/

structure TurnResult where
  turn : Nat
  calls : Nat
  outcome : String

/-- A request that was dispatched, with its turn and its token count. -/
structure Dispatch where
  turn : Nat
  messages : List Value
  count : Nat

structure SessionState where
  history : List Value
  modelCalls : Nat
  toolCalls : Nat
  turns : List TurnResult
  outcome : Value
  error : Option String
  records : List ModelRow
  policy : Rolling.State
  reads : Nat
  awaits : Nat
  dispatched : List Dispatch
  /-- The record of the response and the call. -/
  executed : List (Nat × Value)

def message (role content : String) : Value :=
  .dict [("role", .str role), ("content", .str content)]

namespace SessionState

def initial : SessionState where
  history := [message "system" SYSTEM]
  modelCalls := 0
  toolCalls := 0
  turns := []
  outcome := .str "not_started"
  error := none
  records := []
  policy := .init
  reads := 0
  awaits := 0
  dispatched := []
  executed := []

def modifyTurn (s : SessionState) (f : TurnResult → TurnResult) : SessionState :=
  { s with turns := s.turns.modify (s.turns.length - 1) f }

def turnOutcome (s : SessionState) (outcome : String) : SessionState :=
  s.modifyTurn fun turn => { turn with outcome }

def say (s : SessionState) (m : Value) : SessionState := { s with history := s.history ++ [m] }

/-- `result["model_calls"] += 1` and `turn_result["calls"] += 1`. -/
def countCall (s : SessionState) : SessionState :=
  { s with modelCalls := s.modelCalls + 1 }.modifyTurn fun turn =>
    { turn with calls := turn.calls + 1 }

end SessionState

/-! ## Tools -/

/-- How a loop ends: it goes on, the session returns, or an exception leaves it. -/
inductive Flow where
  | next
  | stop
  | raised (raised : Raised)

def keyError (key : String) : Failure := ⟨"KeyError", "'" ++ key ++ "'", false⟩

/-- `value[key]` of an object. -/
def field (value : Value) (key : String) : Except Failure Value :=
  match value with
  | .dict fields =>
    match fields.lookup key with
    | some found => .ok found
    | none => .error (keyError key)
  | _ => .error ⟨"TypeError", "not subscriptable", false⟩

/-- The `tool_result` of an exception. -/
def Failure.toolResult (failure : Failure) : Value :=
  .dict [("exit_code", .null), ("stdout", .str ""),
    ("stderr", .str (failure.name ++ ": " ++ failure.text)),
    ("failure", if failure.valueError then .null else .str "tool_error")]

/-- `text[-n:]`. -/
def lastChars (n : Nat) (text : List Char) : List Char :=
  if n = 0 then text else text.drop (text.length - n)

/-- `result.get(key, "")` where a string is concatenated. -/
def outputText (result : Fields) (key : String) : Except Failure String :=
  match result.lookup key with
  | none => .ok ""
  | some (.str s) => .ok s
  | some _ => .error ⟨"TypeError", "can only concatenate str to str", false⟩

/-- `observation`: the text that is seen, and whether it was cut. -/
def observation (host : SessionHost) (limit : Nat) : Value → Except Failure (String × Bool)
  | .dict result => do
    let stdout ← outputText result "stdout"
    let stderr ← outputText result "stderr"
    let text := ("exit_code: " ++ host.pyStr ((result.lookup "exit_code").getD .null) ++
      "\nstdout:\n" ++ stdout ++ "\nstderr:\n" ++ stderr).toList
    if text.length ≤ limit then pure (String.ofList text, false)
    else
      let head := limit / 2
      pure (String.ofList (text.take head) ++ "\n[tool output truncated]\n" ++
        String.ofList (lastChars (limit - head) text), true)
  | _ => .error ⟨"AttributeError", "object has no attribute 'get'", false⟩

def toolMessage (tool : Value) (seen : String) : Value :=
  .dict [("role", .str "tool"), ("tool_call_id", tool.get "id"), ("content", .str seen)]

namespace SessionRun

variable (run : SessionRun) (deadline : Rat)

/-- What is given to `sandbox.invoke`: the name, the arguments and the seconds left. -/
def toolArguments (now : Rat) (tool : Value) : Except Failure (Value × Value × Rat) := do
  let function ← field tool "function"
  let arguments ← run.host.loads (← field function "arguments")
  let remaining := min run.config.toolSeconds (deadline - now)
  if remaining ≤ 0 then .error ⟨"TimeoutError", "session deadline before tool", false⟩
  else
    let name ← field function "name"
    pure (name, arguments, remaining)

/-- The result of one tool call; an exception makes a result, a cancellation does not. -/
def runTool (tool : Value) (s : SessionState) : Except Raised Value × SessionState :=
  match run.toolArguments deadline (run.host.clock s.reads) tool with
  | .error failure => (.ok failure.toolResult, { s with reads := s.reads + 1 })
  | .ok (name, arguments, remaining) =>
    let s := { s with
      reads := s.reads + 1
      executed := s.executed ++ [(s.records.length - 1, tool)]
      policy := run.host.background s.awaits s.policy
      awaits := s.awaits + 1 }
    match run.host.invoke s.executed.length name arguments remaining with
    | .ok result => (.ok result, s)
    | .error (.failed failure) => (.ok failure.toolResult, s)
    | .error .cancelled => (.error .cancelled, s)

/-- `for tool in calls`. -/
def runTools : List Value → SessionState → Flow × SessionState
  | [], s => (.next, s)
  | tool :: calls, s =>
    match run.runTool deadline tool { s with toolCalls := s.toolCalls + 1 } with
    | (.error raised, s) => (.raised raised, s)
    | (.ok result, s) =>
      match observation run.host run.config.toolOutputChars result with
      | .error failure => (.raised (.failed failure), s)
      | .ok (seen, _) =>
        let s := s.say (toolMessage tool seen)
        if (result.get "failure").truthy then (.stop, { s with outcome := result.get "failure" })
        else runTools calls s

/-! ## One model call -/

/-- How one pass of the inner loop ends; `turnEnd` is its `break`. -/
inductive CallEnd where
  | again
  | turnEnd
  | stop
  | raised (raised : Raised)

/-- `ChatModel.complete`: the record is there however the call ends. -/
def complete (turn : Nat) (body : Value) (count : Nat) (limit : Rat) (s : SessionState) :
    Completion × SessionState :=
  let completion := run.host.respond s.records.length body limit
  let own := match completion with
    | .row response => response
    | .cancelled own _ => own
  (completion, { s with
    records := s.records ++ [own]
    dispatched := s.dispatched ++ [⟨turn, s.history, count⟩]
    policy := run.host.background s.awaits s.policy
    awaits := s.awaits + 1 })

/-- `policy.after_response`. -/
def afterResponse (requestId : String) (issue : Option String) (s : SessionState) : SessionState :=
  let now := run.host.respondedAt s.records.length
  { s with policy := s.policy.afterResponse run.enabled now requestId issue }

/-- `(response.get("usage") or {}).get("prompt_tokens")`. -/
def promptTokens (response : ModelRow) : Except Failure Value :=
  match pyOr (response.get "usage") (.dict []) with
  | .dict usage => .ok ((usage.lookup "prompt_tokens").getD .null)
  | _ => .error ⟨"AttributeError", "object has no attribute 'get'", false⟩

/-- The issue of a response, with the check of its prompt tokens. -/
def checkedIssue (response : ModelRow) (count : Nat) : Except Failure (Option String) :=
  let issue := responseIssue response
  if issue = none ∨ issue = some "empty_response" then do
    let tokens ← promptTokens response
    if tokens.pyEq (.int count) then pure issue else pure (some "renderer_count_mismatch")
  else .ok issue

/-- What follows a response without an issue. -/
def answer (message : Value) (s : SessionState) : CallEnd × SessionState :=
  let s := s.say message
  match ((toolCalls message).elements?).getD [] with
  | [] => (.turnEnd, s.turnOutcome "assistant_finished")
  | calls =>
    match run.runTools deadline calls s with
    | (.next, s) => (.again, s)
    | (.stop, s) => (.stop, s)
    | (.raised raised, s) => (.raised raised, s)

/-- What follows a response. -/
def received (response : ModelRow) (count : Nat) (s : SessionState) : CallEnd × SessionState :=
  match checkedIssue response count with
  | .error failure => (.raised (.failed failure), s)
  | .ok issue =>
    let s := run.afterResponse response.clientRequestId issue s
    if issue = some "empty_response" ∧ (response.get "finish_reason").pyEq (.str "stop") then
      match response.fields.lookup "message" with
      | none => (.raised (.failed (keyError "message")), s)
      | some message => (.turnEnd, (s.say message).turnOutcome "empty_response")
    else
      match issue with
      | some issue => (.stop, { s with outcome := .str issue })
      | none =>
        match response.fields.lookup "message" with
        | none => (.raised (.failed (keyError "message")), s)
        | some message => run.answer deadline message s

/-- One pass of the inner loop. -/
def oneCall (turn : Nat) (s : SessionState) : CallEnd × SessionState :=
  let now := run.host.clock s.reads
  let s := { s with reads := s.reads + 1 }
  if now ≥ deadline then (.stop, { s with outcome := .str "session_timeout" })
  else
    let body := run.config.body s.history run.cacheSalt
    match run.host.count body with
    | .error failure => (.raised (.failed failure), s)
    | .ok count =>
      if count + run.config.maxOutputTokens > run.config.contextLimit then
        (.stop, { s with outcome := .str "context_budget_stop" })
      else
        let now := run.host.clock s.reads
        let s := { s with
          reads := s.reads + 1
          policy := s.policy.beforeDispatch (run.host.dispatchedAt s.records.length) }
        match run.complete turn body count (min deadline (now + run.config.modelSeconds)) s with
        | (.cancelled _ last, s) =>
          (.raised .cancelled,
            run.afterResponse last.clientRequestId (some "controller_cancelled") s.countCall)
        | (.row response, s) => run.received deadline response count s.countCall

/-! ## The loops -/

/-- `for _ in range(config["calls_per_turn"])`. -/
def callsLoop (turn : Nat) : Nat → SessionState → Flow × SessionState
  | 0, s => (.next, s)
  | left + 1, s =>
    match run.oneCall deadline turn s with
    | (.again, s) => callsLoop turn left s
    | (.turnEnd, s) => (.next, s)
    | (.stop, s) => (.stop, s)
    | (.raised raised, s) => (.raised raised, s)

/-- `for turn, instruction in enumerate(...)`. -/
def turnsLoop : Nat → List String → SessionState → Flow × SessionState
  | _, [], s => (.next, s)
  | turn, instruction :: instructions, s =>
    let s := s.say (message "user" instruction)
    let s := { s with turns := s.turns ++ [⟨turn, 0, "call_limit"⟩] }
    match run.callsLoop deadline turn run.config.callsPerTurn s with
    | (.next, s) => turnsLoop (turn + 1) instructions s
    | (flow, s) => (flow, s)

/-- The outcome of a session whose turns are over. -/
def turnsOutcome (turns : List TurnResult) : String :=
  if turns.any (·.outcome = "empty_response") then "finished_with_turn_failures"
  else if turns.all (·.outcome = "assistant_finished") then "finished"
  else "turn_call_limit"

/-- `run_session`: whether it raises, and the state it leaves. -/
def session : Bool × SessionState :=
  let started := run.host.clock 0
  let deadline := started + run.config.sessionSeconds
  match run.turnsLoop deadline 0 (run.initialPrompt :: run.followups)
      { SessionState.initial with reads := 1 } with
  | (.next, s) => (false, { s with outcome := .str (turnsOutcome s.turns) })
  | (.stop, s) => (false, s)
  | (.raised .cancelled, s) => (true, { s with outcome := .str "controller_stop" })
  | (.raised (.failed failure), s) =>
    (false, { s with
      outcome := .str "session_error"
      error := some (failure.name ++ ": " ++ failure.text) })

end SessionRun

end ReedCode.NextTurn
