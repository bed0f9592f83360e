import ReedCode.Lib.Runs
import ReedCode.Value

/-!
# The model backend

`model_backend.py`: the history of a run (`HistoryItem`), what a Chat Completions request says
of it (`chatMessages`), and the reply of either API as the agent reads it (`ModelResponse`).

* Objects of the SDK are records of the fields the source reads; `modelDump` is
  `model_dump(exclude_none=True)` of a Chat message.
* `createResponse` is cut in two where it awaits the API: `chatRequest` is what is sent,
  `readCompletion` what is made of the completion that comes back.
* An exception is the name of its class; a cancellation is no `Exception`.
-/

set_option autoImplicit false

namespace ReedCode.HarborAgent

/-- What an await can raise: `CancelledError`, or an instance of a subclass of `Exception`. -/
inductive PyException where
  | cancelled
  | error (name : String)
  deriving DecidableEq, Repr

/-- A Python `dict` literal. -/
abbrev Fields := List (String × Value)

/-- `None`, or the value of what is there. -/
def optionValue {α : Type} (f : α → Value) : Option α → Value
  | some a => f a
  | none => .null

/-! ## Replies -/

/-- A call of a function tool, as the agent executes it. -/
structure FunctionCall where
  name : String
  arguments : String
  callId : String
  deriving DecidableEq, Repr

/-- A tool call of a Chat message. -/
structure ChatToolCall where
  id : String
  type : String
  name : String
  arguments : String
  deriving DecidableEq, Repr

/-- A Chat message; `extra` holds its other fields (reasoning and the like). -/
structure ChatCompletionMessage where
  role : String
  content : Option String
  toolCalls : Option (List ChatToolCall)
  extra : Fields
  extra_other : ∀ f ∈ extra, f.1 ≠ "role" ∧ f.1 ≠ "content" ∧ f.1 ≠ "tool_calls"

structure CompletionUsage where
  promptTokens : Option Int
  completionTokens : Option Int
  cachedTokens : Option Int
  deriving DecidableEq, Repr

structure Choice where
  finishReason : Option String
  message : ChatCompletionMessage

structure Completion where
  choices : List Choice
  usage : Option CompletionUsage
  model : String
  id : String

/-- An item of `response.output`: what the Chat backend makes, or an item of the Responses API
(a function call, or an item of another type). -/
inductive OutputItem where
  | chatMessage (message : Fields)
  | chatFunctionCall (call : FunctionCall)
  | responseCall (call : FunctionCall)
  | responseItem (type : String) (type_ne : type ≠ "function_call")

structure Usage where
  inputTokens : Option Int
  outputTokens : Option Int
  cachedTokens : Option Int
  deriving DecidableEq, Repr

/-- A reply, as `create_response` returns it. -/
structure ModelResponse where
  output : List OutputItem
  outputText : Option String
  usage : Usage
  status : Option String
  finishReason : Option String
  incompleteReason : Option String
  model : Option String
  completionId : Option String
  streamTiming : Value

/-- The call of an item whose type is `function_call`. -/
def OutputItem.call? : OutputItem → Option FunctionCall
  | .chatFunctionCall call | .responseCall call => some call
  | .chatMessage _ | .responseItem _ _ => none

def ModelResponse.toolCalls (response : ModelResponse) : List FunctionCall :=
  response.output.filterMap OutputItem.call?

structure Termination where
  responseStatus : Option String
  finishReason : Option String
  incompleteReason : Option String
  outputLimitHit : Bool
  deriving DecidableEq, Repr

def responseTermination (response : ModelResponse) : Termination where
  responseStatus := response.status
  finishReason := response.finishReason
  incompleteReason := response.incompleteReason
  outputLimitHit := decide (response.status = some "incomplete" ∧
    (response.finishReason = some "length" ∨
      response.incompleteReason = some "max_output_tokens"))

def Termination.fields (t : Termination) : Fields :=
  [("response_status", optionValue .str t.responseStatus),
    ("finish_reason", optionValue .str t.finishReason),
    ("incomplete_reason", optionValue .str t.incompleteReason),
    ("output_limit_hit", .bool t.outputLimitHit)]

/-! ## Messages of a history -/

/-- An item of the history: a plain `dict`, or an item of a reply. -/
inductive HistoryItem where
  | plain (fields : Fields)
  | output (item : OutputItem)

/-- The fields of an assistant message that are sent back. -/
def sentFields : List String :=
  ["role", "content", "tool_calls", "reasoning", "reasoning_content"]

/-- The messages of one item: none for a call, which its message already contains. -/
def itemMessages : HistoryItem → Except PyException (List Value)
  | .output (.chatMessage message) =>
    .ok [.dict (message.filter fun f => sentFields.contains f.1)]
  | .output (.chatFunctionCall _) => .ok []
  | .output (.responseCall _) | .output (.responseItem _ _) => .error (.error "ValueError")
  | .plain fields =>
    if fields.lookup "type" = some (.str "function_call_output") then
      match fields.lookup "call_id", fields.lookup "output" with
      | some callId, some output => .ok [.dict [("role", .str "tool"), ("tool_call_id", callId),
          ("content", output)]]
      | _, _ => .error (.error "KeyError")
    else if fields.lookup "role" = some (.str "user") ∨
        fields.lookup "role" = some (.str "system") then .ok [.dict fields]
    else .error (.error "ValueError")

def chatMessages (instructions : String) (history : List HistoryItem) :
    Except PyException (List Value) := do
  let messages ← history.mapM itemMessages
  return .dict [("role", .str "system"), ("content", .str instructions)] :: messages.flatten

/-! ## Requests -/

/-- `DynamoConfig.request_options` of a session. -/
def requestOptions (speculativePrefill : Bool) (sessionId : String) : Fields :=
  [("extra_headers", .dict [("X-Dynamo-Session-ID", .str sessionId)]),
    ("extra_body", .dict [("nvext", .dict [("agent_hints", .dict
      [("speculative_prefill", .bool speculativePrefill)])])])]

/-- A tool as the Chat API takes it; only function tools are supported. -/
def chatTool (tool : Fields) : Except PyException Value :=
  if tool.lookup "type" ≠ some (.str "function") then .error (.error "ValueError")
  else .ok (.dict [("type", .str "function"),
    ("function", .dict (tool.filter fun f => f.1 != "type"))])

/-- The Chat request of `create_response`, with its messages on their own.  The checks of the
arguments cannot fail on a run's settings. -/
def chatRequest (model instructions : String) (history : List HistoryItem) (tools : List Fields)
    (maxOutputTokens : Option Nat) (dynamo : Option (Bool × String)) :
    Except PyException (List Value × Fields) := do
  let chatTools ← tools.mapM chatTool
  let messages ← chatMessages instructions history
  return (messages, [("model", .str model), ("messages", .list messages),
      ("tools", .list chatTools),
      ("tool_choice", .str "auto")] ++
    (match maxOutputTokens with
      | some limit => [("max_completion_tokens", .int limit)]
      | none => []) ++
    (match dynamo with
      | some (speculativePrefill, sessionId) => requestOptions speculativePrefill sessionId
      | none => []))

/-- What the `capture` callback is given of a request. -/
def capturedRequest (request : Fields) : Fields :=
  request.filter fun f => !(["extra_headers", "extra_body"].contains f.1)

/-! ## Completions -/

def ChatToolCall.dump (call : ChatToolCall) : Value :=
  .dict [("id", .str call.id),
    ("function", .dict [("arguments", .str call.arguments), ("name", .str call.name)]),
    ("type", .str call.type)]

/-- `model_dump(exclude_none=True)`. -/
def ChatCompletionMessage.modelDump (message : ChatCompletionMessage) : Fields :=
  [("role", .str message.role)] ++
    (match message.content with
      | some content => [("content", .str content)]
      | none => []) ++
    (match message.toolCalls with
      | some calls => [("tool_calls", .list (calls.map ChatToolCall.dump))]
      | none => []) ++ message.extra

/-- The call of a completed message; others than function calls with an id are refused. -/
def readCall (call : ChatToolCall) : Except PyException OutputItem :=
  if call.type ≠ "function" ∨ call.id = "" then .error (.error "RuntimeError")
  else .ok (.chatFunctionCall ⟨call.name, call.arguments, call.id⟩)

/-- What `create_response` makes of a completion. -/
def readCompletion (completion : Completion) (timing : Value) : Except PyException ModelResponse :=
  match completion.choices with
  | [choice] => do
    let completed := choice.finishReason = some "stop" ∨ choice.finishReason = some "tool_calls"
    -- A cut-off response may have missing IDs or unfinished arguments.
    let calls ← (if completed then choice.message.toolCalls.getD [] else []).mapM readCall
    return {
      output := .chatMessage choice.message.modelDump :: calls
      outputText := some (choice.message.content.getD "")
      usage := match completion.usage with
        | some usage => ⟨usage.promptTokens, usage.completionTokens, usage.cachedTokens⟩
        | none => ⟨none, none, none⟩
      status := some (if completed then "completed" else "incomplete")
      finishReason := choice.finishReason
      incompleteReason := none
      model := some completion.model
      completionId := some completion.id
      streamTiming := timing }
  | _ => .error (.error "RuntimeError")

end ReedCode.HarborAgent
