import ReedCode.Lib.ContextVar
import ReedCode.Lib.FinMap
import ReedCode.Lib.Runs
import ReedCode.CaptureWorker.Writer
import ReedCode.PyValue

/-!
# The wrapped generators

`install_capture` of `capture_worker.py`: the wrappers of `generate`, `_add_request` and `abort`.

* `Body` — where the body of one wrapped `generate` stands, with its local variables.
* `World` — all wrapped generators, the tasks with their `active`, and the calls of `write`.
* `step` — what consumers, the engine and the wrappers do, in any order.

Each task has its own context, as the event loop gives it one.  The engine is not modelled: it
answers `anext` and `aclose` as it likes, and calls `_add_request` and `abort` where it likes.  A
choice has the integer index and the token ids of the engine; an error is known by its type's
name, its text and whether it is a `CancelledError` or a `GeneratorExit`.
-/

set_option autoImplicit false

namespace ReedCode.CaptureWorker.Generate

/-! ## What the wrappers read -/

structure PyError where
  typeName : String
  text : String
  cancelled : Bool
  generatorExit : Bool
  deriving DecidableEq, Repr

def generatorExit : PyError := ⟨"GeneratorExit", "", false, true⟩

def STATS : List String :=
  ["arrival_time", "queued_ts", "scheduled_ts", "first_token_ts", "last_token_ts",
    "first_token_latency", "num_generation_tokens"]

/-- An attribute or an entry, `None` where it is missing. -/
def getattr (fields : List (String × Value)) (name : String) : Value :=
  (fields.lookup name).getD .null

/-- `token_ids(prompt)`, of the value of `prompt_token_ids`. -/
def tokenIds : Value → Option (List Int)
  | .list items => items.mapM fun item =>
    match item with
    | .int n => some n
    | _ => none
  | _ => none

/-- The bound arguments of `generate`.  `prompt` is a dictionary or an object. -/
structure Args where
  instanceId : Nat
  requestId : String
  prompt : List (String × Value)
  outputKind : Option String
  samplingParams : List (String × Value)
  traceHeaders : Option (List (String × String))
  deriving DecidableEq, Repr

structure Choice where
  index : Int
  tokenIds : Option (List Int)
  finishReason : Value
  deriving DecidableEq, Repr

/-- `list(choice.token_ids or ())`. -/
def Choice.ids (choice : Choice) : List Int := choice.tokenIds.getD []

/-- What the engine yields. -/
structure Output where
  requestId : Value
  outputs : List Choice
  numCachedTokens : Value
  numCacheCreationTokens : Value
  metrics : List (String × Value)
  promptTokenIds : Option (List Int)
  finished : Value
  deriving DecidableEq, Repr

/-- The bound request of `_add_request`. -/
structure Request where
  instanceId : Nat
  requestId : String
  externalReqId : Value
  promptTokenIds : Value
  deriving DecidableEq, Repr

/-! ## The state of a request -/

/-- `state`. -/
structure Capture where
  captureId : String
  instanceId : Nat
  requestId : String
  engineRequestIds : List String
  promptIds : Option (List Int)
  outputKind : Option String
  cacheSalt : Value
  outputs : FinMap Int (List Int)
  cachedTokens : Value
  cacheCreationTokens : Value
  engineStats : List (String × Value)
  finished : Bool
  outputCount : Nat
  outputPromptMatchesEntry : Option Value
  error : Option (String × String)
  deriving DecidableEq

def Capture.new (captureId : String) (args : Args) : Capture where
  captureId := captureId
  instanceId := args.instanceId
  requestId := args.requestId
  engineRequestIds := []
  promptIds := tokenIds (getattr args.prompt "prompt_token_ids")
  outputKind := args.outputKind
  cacheSalt := getattr args.prompt "cache_salt"
  outputs := .empty
  cachedTokens := .null
  cacheCreationTokens := .null
  engineStats := STATS.map fun name => (name, .null)
  finished := false
  outputCount := 0
  outputPromptMatchesEntry := none
  error := none

def idsValue (ids : List Int) : Value := .list (ids.map .int)

def optionValue {α : Type} (f : α → Value) : Option α → Value
  | none => .null
  | some a => f a

/-- `**state`; the keys of `outputs` are texts once they are written. -/
def Capture.fields (st : Capture) : List (String × Value) :=
  [("capture_id", .str st.captureId), ("instance_id", .int st.instanceId),
    ("request_id", .str st.requestId),
    ("engine_request_ids", .list (st.engineRequestIds.map .str)),
    ("prompt_ids", optionValue idsValue st.promptIds),
    ("output_kind", optionValue .str st.outputKind), ("cache_salt", st.cacheSalt),
    ("outputs", .dict (st.outputs.entries.map fun e => (toString e.1, idsValue e.2))),
    ("cached_tokens", st.cachedTokens), ("cache_creation_tokens", st.cacheCreationTokens),
    ("engine_stats", .dict st.engineStats), ("finished", .bool st.finished),
    ("output_count", .int st.outputCount), ("computed_prefill_tokens", .null),
    ("computed_prefill_status", .str "not_exposed_by_AsyncLLM")] ++
  (match st.outputPromptMatchesEntry with
    | none => []
    | some same => [("output_prompt_matches_entry", same)]) ++
  match st.error with
    | none => []
    | some error => [("error_type", .str error.1), ("error", .str error.2)]

/-- The value the engine gives, else the one before. -/
def keep (value before : Value) : Value := if value = .null then before else value

/-- One choice of an output. -/
def addChoice (kind : Option String) (outputs : FinMap Int (List Int)) (choice : Choice) :
    FinMap Int (List Int) :=
  if kind = some "DELTA" then
    outputs.insert choice.index ((outputs.get? choice.index).getD [] ++ choice.ids)
  else if kind = some "CUMULATIVE" ∨ kind = some "FINAL_ONLY" then
    outputs.insert choice.index choice.ids
  else outputs

/-- `list(prompt) == state["prompt_ids"]`, if both are known. -/
def promptMatches (st : Capture) (ids : List Int) : Value :=
  match st.promptIds with
  | none => .null
  | some entry => .bool (ids = entry)

/-- What an output changes in `state`. -/
def Capture.take (st : Capture) (output : Output) : Capture :=
  { st with
    outputCount := st.outputCount + 1
    outputs := output.outputs.foldl (addChoice st.outputKind) st.outputs
    cachedTokens := keep output.numCachedTokens st.cachedTokens
    cacheCreationTokens := keep output.numCacheCreationTokens st.cacheCreationTokens
    engineStats := st.engineStats.map fun stat => (stat.1, keep (getattr output.metrics stat.1) stat.2)
    outputPromptMatchesEntry :=
      match output.promptTokenIds with
      | none => st.outputPromptMatchesEntry
      | some ids => some (promptMatches st ids)
    finished := output.finished.truthy }

/-! ## Records -/

/-- An entry of `internal_ids`. -/
structure Link where
  captureId : Option String
  externalRequestId : Value
  engineRequestId : String
  deriving DecidableEq, Repr

def Link.fields (link : Link) : List (String × Value) :=
  [("capture_id", optionValue .str link.captureId),
    ("external_request_id", link.externalRequestId),
    ("engine_request_id", .str link.engineRequestId)]

/-- A call of `write` by a wrapper. -/
inductive Record where
  | engineEnter (state : Capture) (traceHeaders : List (String × String))
      (sampling : List (String × Value))
  | engineOutput (state : Capture) (output : Output)
  | engineResult (state : Capture) (terminal : String)
  | engineLink (link : Link) (processedPromptIds : Option (List Int))
      (externalMatchesGenerate : Value)
  | engineSubmitReturn (link : Link)
  | engineAbortCall (fields : List (String × Value))
  | engineAbortError (fields : List (String × Value)) (error : PyError)
  | engineAbortAck (fields : List (String × Value))
  deriving DecidableEq

/-- The record before `originals["generate"]`. -/
def enterRecord (captureId : String) (args : Args) : Record :=
  .engineEnter (Capture.new captureId args)
    ((args.traceHeaders.getD []).filter fun h =>
      ["traceparent", "tracestate", "x-request-id", "request-id"].contains h.1.toLower)
    (["n", "max_tokens", "min_tokens", "ignore_eos", "temperature", "seed"].map fun name =>
      (name, getattr args.samplingParams name))

def Choice.chunk (choice : Choice) : Value :=
  .dict [("index", .int choice.index), ("token_ids", idsValue choice.ids),
    ("finish_reason", choice.finishReason)]

def outputIdsStatus (kind : Option String) : String :=
  if kind ∈ [some "DELTA", some "CUMULATIVE", some "FINAL_ONLY"] then "reported"
  else "unknown_output_kind"

/-- The arguments of the call. -/
def Record.call : Record → Call
  | .engineEnter st headers sampling =>
    ⟨"engine_enter", st.fields ++
      [("trace_headers", .dict (headers.map fun h => (h.1, .str h.2))), ("sampling", .dict sampling)]⟩
  | .engineOutput st output =>
    ⟨"engine_output",
      [("capture_id", .str st.captureId), ("request_id", .str st.requestId),
        ("output_request_id", output.requestId),
        ("output_id_matches_generate", .bool (output.requestId.pyEq (.str st.requestId))),
        ("output_count", .int st.outputCount), ("chunks", .list (output.outputs.map Choice.chunk)),
        ("output_kind", optionValue .str st.outputKind), ("finished", .bool st.finished),
        ("cached_tokens", st.cachedTokens), ("cache_creation_tokens", st.cacheCreationTokens),
        ("engine_stats", .dict st.engineStats)]⟩
  | .engineResult st terminal =>
    ⟨"engine_result", st.fields ++ [("terminal", .str terminal),
      ("output_ids_status", .str (outputIdsStatus st.outputKind))]⟩
  | .engineLink link ids same =>
    ⟨"engine_link", link.fields ++ [("processed_prompt_ids", optionValue idsValue ids),
      ("external_matches_generate", same)]⟩
  | .engineSubmitReturn link => ⟨"engine_submit_return", link.fields⟩
  | .engineAbortCall fields => ⟨"engine_abort_call", fields⟩
  | .engineAbortError fields error =>
    ⟨"engine_abort_error", fields ++ [("error_type", .str error.typeName), ("error", .str error.text)]⟩
  | .engineAbortAck fields =>
    ⟨"engine_abort_ack", fields ++ [("acknowledgement", .str "AsyncLLM.abort Python await returned"),
      ("gpu_execution_stopped", .null)]⟩

/-! ## The body of a wrapped generator -/

/-- What the engine's generator answers to `anext`. -/
inductive Answer where
  | output (output : Output)
  | stop
  | raised (error : PyError)
  deriving DecidableEq, Repr

/-- What the body does for its consumer. -/
inductive Told where
  | yields (output : Output)
  | stops
  | raises (error : PyError)
  deriving DecidableEq, Repr

/-- What the body asks of the engine's generator. -/
inductive Ask where
  | anext
  | aclose
  deriving DecidableEq, Repr

/-- Where the body stands: in `await anext(iterator)` or `await iterator.aclose()` of a task, or at
`yield output`.  `closing` keeps how the body will end. -/
inductive Phase where
  | advancing (task : Nat)
  | yielded
  | closing (task : Nat) (after : Told)
  | ended
  deriving DecidableEq, Repr

/-- The task in which the body runs. -/
def Phase.task? : Phase → Option Nat
  | .advancing t => some t
  | .yielded => none
  | .closing t _ => some t
  | .ended => none

/-- What has happened; the program does not read it. -/
structure Exchange where
  asked : List Ask
  heard : List Answer
  thrown : Option PyError
  closeError : Option PyError
  told : List Told
  deriving DecidableEq, Repr

structure Body where
  args : Args
  state : Capture
  terminal : String
  phase : Phase
  exchange : Exchange
  deriving DecidableEq

/-- A wrapped generator: not started, closed before it started, or started. -/
inductive Gen where
  | fresh (args : Args)
  | spent
  | started (body : Body)
  deriving DecidableEq

def Body.new (captureId : String) (args : Args) : Body where
  args := args
  state := Capture.new captureId args
  terminal := "stream_ended_without_finished"
  phase := .yielded
  exchange := ⟨[], [], none, none, []⟩

def Exchange.ask (x : Exchange) (ask : Ask) : Exchange := { x with asked := x.asked ++ [ask] }

def Exchange.hear (x : Exchange) (answer : Answer) : Exchange :=
  { x with heard := x.heard ++ [answer] }

def Exchange.tell (x : Exchange) (told : Told) : Exchange := { x with told := x.told ++ [told] }

/-- To `await anext(iterator)`. -/
def Body.advance (b : Body) (t : Nat) : Body :=
  { b with phase := .advancing t, exchange := b.exchange.ask .anext }

/-- From an output to `yield output`. -/
def Body.take (b : Body) (output : Output) : Body :=
  let state := b.state.take output
  { b with
    state := state
    terminal := if state.finished then "finished" else b.terminal
    phase := .yielded
    exchange := (b.exchange.hear (.output output)).tell (.yields output) }

/-- To `await iterator.aclose()` of `finally`. -/
def Body.finish (b : Body) (t : Nat) (after : Told) : Body :=
  { b with phase := .closing t after, exchange := b.exchange.ask .aclose }

def PyError.terminal (error : PyError) : String :=
  if error.cancelled then "cancelled" else if error.generatorExit then "consumer_closed" else "error"

/-- `except BaseException`, and on to `finally`. -/
def Body.fail (b : Body) (t : Nat) (error : PyError) : Body :=
  { b with
    terminal := error.terminal
    state := { b.state with error := some (error.typeName, error.text) } }.finish t (.raises error)

/-- The end of `finally`; an error of `aclose` replaces what the body would have done. -/
def Body.close (b : Body) (after : Told) (error : Option PyError) : Body :=
  { b with
    phase := .ended
    exchange :=
      { b.exchange with
        closeError := error
        told := b.exchange.told ++ [(error.map Told.raises).getD after] } }

/-! ## All generators -/

/-- A call of `write`: the generator whose body makes it, the generator that the task is running
at the time, and the record. -/
structure Attempt where
  writer : Option Nat
  inside : Option Nat
  record : Record
  deriving DecidableEq

/-- A call of an original method that has not returned. -/
inductive Pending where
  | submit (link : Link)
  | abort (fields : List (String × Value))
  deriving DecidableEq

structure World where
  gens : FinMap Nat Gen
  tasks : FinMap Nat (ContextVar Nat)
  requests : FinMap String Nat
  internalIds : FinMap (Nat × String) Link
  pending : List Pending
  written : List Attempt

def World.start : World := ⟨.empty, FinMap.empty.insert 0 .new, .empty, .empty, [], []⟩

def World.write (w : World) (writer inside : Option Nat) (record : Record) : World :=
  { w with written := w.written ++ [⟨writer, inside, record⟩] }

def World.setGen (w : World) (g : Nat) (gen : Gen) : World :=
  { w with gens := w.gens.insert g gen }

def World.setTask (w : World) (t : Nat) (c : ContextVar Nat) : World :=
  { w with tasks := w.tasks.insert t c }

/-- The state that `active` holds. -/
def World.stateOf (w : World) (active : Option Nat) : Option Capture :=
  match active.bind w.gens.get? with
  | some (.started b) => some b.state
  | _ => none

inductive Resumption where
  | next
  | close
  | throw (error : PyError)
  deriving DecidableEq, Repr

/-- What a call of `abort` asks for; its own `links` are a lookup in the world. -/
structure AbortArgs where
  instanceId : Nat
  requestIds : Option (List String)
  isInternal : Bool
  deriving DecidableEq, Repr

inductive Event where
  | spawn (t t' : Nat)
  | generate (g : Nat) (args : Args)
  | resume (t g : Nat) (how : Resumption) (captureId : String)
  | answer (t : Nat) (answer : Answer)
  | closed (t : Nat) (error : Option PyError)
  | addRequest (t : Nat) (request : Request)
  | abort (t : Nat) (args : AbortArgs) (callId : String)
  | settled (p : Pending) (error : Option PyError)
  deriving DecidableEq

section Step

variable (w : World) (t : Nat)

/-- The first step of the body: `engine_enter`, and on to `await anext(iterator)`. -/
def World.begin (c : ContextVar Nat) (g : Nat) (args : Args) (captureId : String) : World :=
  let w := { w with requests := w.requests.insert captureId g }
  ((w.write (some g) c.top (enterRecord captureId args)).setGen g
    (.started ((Body.new captureId args).advance t))).setTask t (c.set g)

/-- A consumer calls `anext`, `aclose` or `athrow`.  A body that runs or has ended, and one that was
closed before it started, are not resumed. -/
def World.resume (g : Nat) (how : Resumption) (captureId : String) : Option World := do
  let c ← w.tasks.get? t
  match ← w.gens.get? g with
  | .fresh args =>
    match how with
    | .next => some (w.begin t c g args captureId)
    | .close | .throw _ => some (w.setGen g .spent)
  | .spent => some w
  | .started b =>
    match b.phase with
    | .yielded =>
      let b' := match how with
        | .next => b.advance t
        | .close => { b with exchange := { b.exchange with thrown := some generatorExit } }.fail t
            generatorExit
        | .throw error => { b with exchange := { b.exchange with thrown := some error } }.fail t error
      some ((w.setGen g (.started b')).setTask t (c.set g))
    | _ => some w

/-- The engine's generator answers the task. -/
def World.answer (answer : Answer) : Option World := do
  let c ← w.tasks.get? t
  let g ← c.top
  match ← w.gens.get? g with
  | .started b =>
    if b.phase = .advancing t then
      match answer with
      | .output output =>
        let b' := b.take output
        some (((w.write (some g) c.reset.top (.engineOutput b'.state output)).setGen g
          (.started b')).setTask t c.reset)
      | .stop =>
        let b' := { b with exchange := b.exchange.hear .stop }.finish t .stops
        some ((w.setGen g (.started b')).setTask t (c.reset.set g))
      | .raised error =>
        let b' := { b with exchange := b.exchange.hear (.raised error) }.fail t error
        some ((w.setGen g (.started b')).setTask t (c.reset.set g))
    else none
  | _ => none

/-- `iterator.aclose()` returns or raises. -/
def World.closed (error : Option PyError) : Option World := do
  let c ← w.tasks.get? t
  let g ← c.top
  match ← w.gens.get? g with
  | .started b =>
    match b.phase with
    | .closing t' after =>
      if t' = t then
        some (((w.write (some g) c.top (.engineResult b.state b.terminal)).setGen g
          (.started (b.close after error))).setTask t c.reset)
      else none
    | _ => none
  | _ => none

/-- `state["engine_request_ids"].append(internal_id)`. -/
def World.linkRequest (active : Option Nat) (internalId : String) : World :=
  match active with
  | none => w
  | some g =>
    match w.gens.get? g with
    | some (.started b) => w.setGen g (.started
        { b with state :=
          { b.state with engineRequestIds := b.state.engineRequestIds ++ [internalId] } })
    | _ => w

/-- `add_request`, up to the call of the original. -/
def World.addRequest (request : Request) : Option World := do
  let c ← w.tasks.get? t
  let state := w.stateOf c.value
  let link : Link := ⟨state.map Capture.captureId, request.externalReqId, request.requestId⟩
  let same := optionValue
    (fun st => Value.bool (request.externalReqId.pyEq (.str st.requestId))) state
  let w := w.linkRequest c.value request.requestId
  let w := { w with
    internalIds := w.internalIds.insert (request.instanceId, request.requestId) link
    pending := w.pending ++ [Pending.submit link] }
  some (w.write none c.top (.engineLink link (tokenIds request.promptTokenIds) same))

/-- The states of `requests` with this request id. -/
def World.requestLinks (instanceId : Nat) (requestId : String) : List Value :=
  w.requests.entries.filterMap fun entry =>
    match w.stateOf (some entry.2) with
    | none => none
    | some st =>
      if st.instanceId = instanceId ∧ st.requestId = requestId then
        some (.dict [("capture_id", .str st.captureId), ("external_request_id", .str requestId),
          ("engine_request_ids", .list (st.engineRequestIds.map .str))])
      else none

/-- `links` of `abort`. -/
def World.abortLinks (args : AbortArgs) : List Value :=
  (args.requestIds.getD []).flatMap fun requestId =>
    if args.isInternal then
      match w.internalIds.get? (args.instanceId, requestId) with
      | some link => [.dict link.fields]
      | none => [.dict [("engine_request_id", .str requestId), ("capture_id", .null)]]
    else w.requestLinks args.instanceId requestId

/-- `abort`, up to the call of the original. -/
def World.abort (args : AbortArgs) (callId : String) : Option World := do
  let c ← w.tasks.get? t
  let fields := [("abort_call_id", .str callId),
    ("request_ids", optionValue (fun ids => .list (ids.map .str)) args.requestIds),
    ("internal", .bool args.isInternal), ("links", .list (w.abortLinks args))]
  let w := { w with pending := w.pending ++ [Pending.abort fields] }
  some (w.write none c.top (.engineAbortCall fields))

/-- An original `_add_request` or `abort` returns or raises. -/
def World.settled (p : Pending) (error : Option PyError) : Option World :=
  if p ∈ w.pending then
    let w := { w with pending := w.pending.erase p }
    match p, error with
    | .submit link, none => some (w.write none none (.engineSubmitReturn link))
    | .submit _, some _ => some w
    | .abort fields, none => some (w.write none none (.engineAbortAck fields))
    | .abort fields, some e => some (w.write none none (.engineAbortError fields e))
  else none

end Step

/-- One step of the program, its consumers or the engine; `none` where that cannot happen. -/
def step (w : World) : Event → Option World
  | .spawn t t' =>
    match w.tasks.get? t, w.tasks.get? t' with
    | some c, none => some (w.setTask t' c.copy)
    | _, _ => none
  | .generate g args =>
    match w.gens.get? g with
    | none => some (w.setGen g (.fresh args))
    | some _ => none
  | .resume t g how captureId => w.resume t g how captureId
  | .answer t answer => w.answer t answer
  | .closed t error => w.closed t error
  | .addRequest t request => w.addRequest t request
  | .abort t args callId => w.abort t args callId
  | .settled p error => w.settled p error

end ReedCode.CaptureWorker.Generate
