import ReedCode.Lib.Processes
import ReedCode.Replay.Workload

/-!
# A replay epoch

`run_epoch` of `dynamo_replay.py`: the workflows of all copies, each a task of one group, around
the rows and the trace of the epoch.

* A task is cut where it awaits; between two awaits it runs alone.  What an await brings, and
  what the clock reads then, comes with the action.
* `rows` holds references: the rows are kept by their tasks, the epoch keeps their sessions in
  the order they arrived.  `sent` is a history variable: what the client was asked to send.
* Once the group is cancelled, its cancellation is what the next await of every task brings.
* Writes to the trace do not fail; its lines are without their time.
-/

set_option autoImplicit false

namespace ReedCode.Replay

open HarborAgent

/-! ## Records -/

/-- A workflow that passed `validate_workload`. -/
structure Workflow where
  id : String
  arrivalMs : Rat
  turns : List Value
  some : turns ≠ []

inductive CallStatus where
  | running
  | failed (errorType : String) (streamTiming : Value)
  | completed (completionId servedModel : String) (streamTiming : Value)
      (finishReason : Option String) (usage : Option Fields) (recordedMessageMatch : Option Bool)
  deriving DecidableEq

/-- An entry of `row["calls"]`. -/
structure Call where
  session : String
  turn : Nat
  requestSha256 : String
  status : CallStatus
  deriving DecidableEq

inductive RowStatus where
  | running
  | completed
  | outputLimit
  | incomplete
  | timeout
  | cancelled
  | error (errorType : String)
  deriving DecidableEq

/-- A row of the epoch. -/
structure Row where
  workflow : String
  copy : Nat
  session : String
  status : RowStatus
  calls : List Call
  cappedCompletionMs : Rat
  sessionFinal : Option Fields
  elapsedMs : Option Rat
  deriving DecidableEq

/-- A line of `requests.jsonl`. -/
inductive Line where
  | request (call : Call)
  | response (call : Call)
  | workflowEnd (row : Row)
  deriving DecidableEq

def Line.session : Line → String
  | .request call | .response call => call.session
  | .workflowEnd row => row.session

/-- A request to the client: of a turn, or the final notice of a session. -/
structure Sent where
  session : String
  fields : Fields
  final : Bool
  deriving DecidableEq

/-! ## Tasks -/

/-- The arguments of an epoch; `on` is `condition == "on"`. -/
structure Plan where
  model : String
  on : Bool
  horizonMs : Rat
  /-- The digest of a request, its keys sorted. -/
  digest : Fields → String

/-- Where a task awaits: its arrival, the wait before a turn, the reply of a turn, the final
notice; `reraises` a cancellation after it. -/
inductive Phase where
  | arriving
  | waiting (turn : Nat) (row : Row)
  | calling (turn : Nat) (row : Row)
  | finishing (row : Row) (reraises : Bool)
  | done (row : Option Row) (cancelled : Bool)

/-- `workflow_run` of one workflow and copy; `interrupted` once it has seen the cancellation of
the group. -/
structure Task where
  workflow : Workflow
  copy : Nat
  session : String
  phase : Phase
  interrupted : Bool

/-- What the tasks share. -/
structure Epoch where
  arrived : List String
  trace : List Line
  sent : List Sent
  aborted : Bool

def Epoch.empty : Epoch := ⟨[], [], [], false⟩

/-- What an await brings. -/
inductive Act where
  | arrive
  | wake
  | reply (choice : Choice) (usage : Option Fields) (servedModel completionId : String)
      (timing : Value) (now : Rat)
  | fail (name : String) (timing : Value)
  | expire (timing : Value)
  | cancel (timing : Value)
  | noticed (notice : Fields) (now : Rat)

/-- `comparable_message`. -/
def comparableMessage (message : Fields) : Fields :=
  message.filter fun f => sentFields.contains f.1 && !f.2.isNull

/-- `recorded_message_match`; an expected message that is no object raises. -/
def messageMatch (actual : Fields) (expected : Value) : Except PyException (Option Bool) :=
  match expected with
  | .null => .ok none
  | .dict message => .ok (some ((Value.dict (comparableMessage actual)).pyEq
      (.dict (comparableMessage message))))
  | _ => .error (.error "AttributeError")

/-- `choice.finish_reason in ("stop", "tool_calls")`. -/
def goesOn (finishReason : Option String) : Bool :=
  finishReason == some "stop" || finishReason == some "tool_calls"

def stopStatus (finishReason : Option String) : RowStatus :=
  if finishReason = some "length" then .outputLimit else .incomplete

/-- The status of a row whose `try` ends in an exception. -/
def errorStatus (name : String) : RowStatus :=
  if name = "TimeoutError" then .timeout else .error name

/-- The last call of the row is answered. -/
def Row.answer (row : Row) (status : CallStatus) : Row :=
  { row with calls := row.calls.dropLast ++
      (row.calls.getLast?.map fun call => { call with status }).toList }

/-- The line of its answer. -/
def Row.response (row : Row) : List Line := (row.calls.getLast?.map Line.response).toList

/-- What `finish_session` sends. -/
def finalRequest (model session : String) : Fields :=
  [("model", .str model),
    ("messages", .list [.dict [("role", .str "user"), ("content", .str ".")]]),
    ("max_completion_tokens", .int 1),
    ("extra_headers", .dict [("X-Dynamo-Session-ID", .str session),
      ("X-Dynamo-Session-Final", .str "true")]),
    ("extra_body", .dict [("nvext", .dict [("agent_hints", .dict
      [("speculative_prefill", .bool false)])])])]

namespace Task

variable (E : Plan) (s : Epoch) (p : Task)

/-- The request of a turn, in the session of the task. -/
def request (turn : Value) : Sent :=
  ⟨p.session, replayRequest E.model E.on p.session (turnRequest turn), false⟩

def notice : Sent := ⟨p.session, finalRequest E.model p.session, true⟩

/-- The `finally` clause: the final notice goes out. -/
def finish (row : Row) (reraises : Bool) : Epoch × Task :=
  ({ s with sent := s.sent ++ [p.notice E] }, { p with phase := .finishing row reraises })

/-- The row of an arriving task. -/
def newRow : Row :=
  ⟨p.workflow.id, p.copy, p.session, .running, [], E.horizonMs, none, none⟩

/-- The call of a turn that is sent. -/
def newCall (k : Nat) (turn : Value) : Call :=
  ⟨p.session, k + 1, E.digest (turnRequest turn), .running⟩

/-- The wait is over: the request of turn `k` goes out. -/
def call (k : Nat) (row : Row) (turn : Value) : Epoch × Task :=
  ({ s with
      trace := s.trace ++ [.request (p.newCall E k turn)]
      sent := s.sent ++ [p.request E turn] },
    { p with phase := .calling k { row with calls := row.calls ++ [p.newCall E k turn] } })

/-- The answer of a call is logged. -/
def logged (row : Row) : Epoch := { s with trace := s.trace ++ row.response }

/-- A reply to turn `k`. -/
def replied (k : Nat) (row : Row) (choice : Choice) (usage : Option Fields)
    (servedModel completionId : String) (timing : Value) (now : Rat) : Epoch × Task :=
  match messageMatch choice.message.modelDump
      (((p.workflow.turns[k]?.getD .null).get? "expected_message").getD .null) with
  | .error _ => p.finish E s { row with status := .error "AttributeError" } false
  | .ok recorded =>
    let row := row.answer (.completed completionId servedModel timing choice.finishReason usage
      recorded)
    let s := logged s row
    if goesOn choice.finishReason then
      if k + 1 < p.workflow.turns.length then (s, { p with phase := .waiting (k + 1) row })
      else p.finish E s { row with
        status := .completed, cappedCompletionMs := now - p.workflow.arrivalMs } false
    else p.finish E s { row with status := stopStatus choice.finishReason } false

/-- A call that raises. -/
def raised (row : Row) (name : String) (timing : Value) (status : RowStatus) (reraises : Bool) :
    Epoch × Task :=
  let row := row.answer (.failed name timing)
  p.finish E (logged s row) { row with status } reraises

/-- The final notice is over. -/
def finished (row : Row) (reraises : Bool) (final : Fields) (now : Rat) : Epoch × Task :=
  let row := { row with
    sessionFinal := some final, elapsedMs := some (now - p.workflow.arrivalMs) }
  ({ s with trace := s.trace ++ [.workflowEnd row] },
    { p with phase := .done (some row) reraises })

/-- The cancellation of the group, at the await of the task. -/
def cancelled (timing : Value) : Option (Epoch × Task) :=
  let p' := { p with interrupted := true }
  match p.phase with
  | .arriving => some (s, { p' with phase := .done none true })
  | .waiting _ row => some (p'.finish E s { row with status := .cancelled } true)
  | .calling _ row => some (p'.raised E s row "CancelledError" timing .cancelled true)
  | .finishing row _ => some (s, { p' with phase := .done (some row) true })
  | .done _ _ => none

/-- Any other await. -/
def act : Act → Option (Epoch × Task)
  | .arrive =>
    match p.phase with
    | .arriving => some ({ s with arrived := s.arrived ++ [p.session] },
        { p with phase := .waiting 0 (p.newRow E) })
    | _ => none
  | .wake =>
    match p.phase with
    | .waiting k row => p.workflow.turns[k]?.map fun turn => p.call E s k row turn
    | _ => none
  | .reply choice usage servedModel completionId timing now =>
    match p.phase with
    | .calling k row =>
      some (p.replied E s k row choice usage servedModel completionId timing now)
    | _ => none
  | .fail name timing =>
    match p.phase with
    | .calling _ row => some (p.raised E s row name timing (errorStatus name) false)
    | _ => none
  | .expire timing =>
    match p.phase with
    | .waiting _ row => some (p.finish E s { row with status := .timeout } false)
    | .calling _ row => some (p.raised E s row "CancelledError" timing .timeout false)
    | _ => none
  | .noticed notice now =>
    match p.phase with
    | .finishing row reraises => some (p.finished s row reraises notice now)
    | _ => none
  | .cancel _ => none

/-- One await of a task. -/
def own (action : Act) : Option (Epoch × Task) :=
  if s.aborted ∧ p.interrupted = false then
    match action with
    | .cancel timing => p.cancelled E s timing
    | _ => none
  else p.act E s action

end Task

/-! ## The epoch -/

/-- The tasks of an epoch, and the cancellation of their group. -/
def system (E : Plan) : Processes.System Epoch Task Act Unit Empty where
  own s p a := p.own E s a
  env s _ := some { s with aborted := true }
  enter _ c := c.elim

/-- The tasks of the group, as they are created. -/
def launch (workflows : List Workflow) (copies : Nat) (session : Nat → Nat → String) : List Task :=
  (List.range copies).flatMap fun number => workflows.mapIdx fun i workflow =>
    ⟨workflow, number, session number i, .arriving, false⟩

end ReedCode.Replay
