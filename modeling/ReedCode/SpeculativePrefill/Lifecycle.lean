import ReedCode.Lib.Processes
import ReedCode.SpeculativePrefill.ToolPrefix
import ReedCode.SpeculativePrefill.ToolTurn

/-!
# The life of a warmup

`speculative_prefill.rs`: a client stream is passed through; when it was one complete tool turn, a
task renders its prefix on a blocking thread and sends it through the pipeline.  All warmups share
the admission of blocking work, and each hangs on the token of its owner.

* `Task` — one wrapped stream, its outer task, `prefill_task` and the closure on the blocking thread.
* `Task.step` — a step of any of them.  An outer task polls, and within a poll `prefill_task` runs up
  to where it awaits; a cancellation may fall between any two steps.
* `prefills` — any number of them, with the admission, the tokens and the time.

The pipeline behind `generate` is the environment.  A result that the builder of the request would
refuse is left out: all its fields are given.
-/

set_option autoImplicit false

namespace ReedCode.SpeculativePrefill

/-- `PREFILL_TASK_TIMEOUT`, in milliseconds. -/
def prefillTaskTimeout : Nat := 60000

/-- `PREFILL_WIND_DOWN_GRACE`. -/
def prefillWindDownGrace : Nat := 5000

def maxBlockingPrefills : Nat := 4

/-! ## What a warmup is made of -/

/-- What the warmup asks a tokenizer. -/
structure Tokenizer (ε : Type) where
  validatePrefixCache : Except ε Unit
  numSpecialTokensAdded : Except ε Nat
  tokenToId : String → Except ε (Option Nat)
  specialTokenIds : Except ε (List Nat)
  encode : List Char → Except ε (List Nat)

/-- `<|im_end|>`. -/
def endTokenId : Nat := 151645

variable {ε : Type}

def Tokenizer.supported (t : Tokenizer ε) : Bool :=
  t.validatePrefixCache.isOk &&
    t.numSpecialTokensAdded.toOption == some 0 &&
    (t.tokenToId "<|im_end|>").toOption.bind id == some endTokenId &&
    t.specialTokenIds.toOption.any (·.contains endTokenId) &&
    (t.encode endToken).toOption.any (· == [endTokenId])

/-- `PrefillPreprocessing`, without the admission and the tracker, which the tasks share. -/
structure PrefillPreprocessing (ε R : Type) where
  renderSpeculativeToolPrefix : R → Except ε (Option (List Char))
  tokenizer : Tokenizer ε

/-- What `maybe_wrap_stream` reads of a request, and the request with one more message. -/
structure ChatRequest (R M : Type) where
  speculativePrefill : Option Bool
  n : Option Nat
  continueFinalMessage : Option Bool
  request : R
  push : M → R

/-- What the wrapper reads of an item of the client stream. -/
structure Item where
  error : Bool
  event : Option String
  data : Option Response

/-- What the wrapper tells the accumulator of an item. -/
def Item.calls (item : Item) : List Call :=
  (if item.error || item.event == some "error" then [Call.reject] else []) ++
    (item.data.map Call.observe).toList

/-! ## States -/

/-- The oneshot channel from the wrapper to the task. -/
inductive Channel (M : Type)
  | waiting
  | sent (assistant : M)
  | closed

/-- The stream that the client polls: `yielded` is what it got. -/
structure Wrapper where
  completed : CompletedToolTurn
  yielded : List Item
  ended : Bool
  dropped : Bool

/-- The outer task; `polled` marks that the token was looked at in this poll. -/
inductive Outer
  | waiting
  | receiving
  | warming (deadline : Nat)
  | polling (deadline : Nat)
  | winding (deadline : Nat)
  | ended
  deriving DecidableEq

/-- `prefill_task`. -/
inductive Inner
  | unstarted
  | admitting
  | spawning
  | joining
  | built (ids : List Nat)
  | rechecked (ids : List Nat)
  | published (ids : List Nat)
  | generating
  | draining
  | finished
  deriving DecidableEq

/-- The closure on the blocking thread, which holds the permit until it returns. -/
inductive Closure
  | none
  | queued
  | checked
  | supported
  | rendered (text : List Char)
  | encoding (text : List Char)
  | returned (ids : Option (List Nat))

/-- The contexts through which a warmup can be stopped: of the request, and of the response. -/
inductive Context
  | request
  | response
  deriving DecidableEq

structure Task (ε R M : Type) where
  owner : Nat
  request : ChatRequest R M
  preprocessing : PrefillPreprocessing ε R
  wrapper : Wrapper
  channel : Channel M
  outer : Outer
  assistant : Option M
  /-- The time at which the turn of the client was complete. -/
  received : Nat
  warmupCancel : Bool
  inner : Inner
  closure : Closure
  slot : Option Context
  /-- The requests that went into the pipeline. -/
  dispatched : List (List Nat)
  /-- The contexts that were asked to stop. -/
  stopped : List Context

structure Shared where
  free : Nat
  /-- The owners whose token is cancelled. -/
  cancelled : List Nat
  now : Nat

variable {R M : Type}

def Closure.isRunning : Closure → Bool
  | .none => false
  | .returned _ => false
  | _ => true

namespace Task

/-- The token of the warmup, a child of the owner's. -/
def isCancelled (s : Shared) (task : Task ε R M) : Bool :=
  s.cancelled.contains task.owner || task.warmupCancel

/-! ## The client stream -/

inductive StreamAction
  | item (item : Item)
  | eof
  | drop

/-- A poll of the wrapped stream that gives an item or the end, or its drop. -/
def stream (P : Protocol M) (task : Task ε R M) : StreamAction → Option (Task ε R M)
  | .item item =>
    if task.wrapper.ended || task.wrapper.dropped then none
    else
      some { task with
        wrapper := { task.wrapper with
          completed := item.calls.foldl CompletedToolTurn.call task.wrapper.completed
          yielded := task.wrapper.yielded ++ [item] } }
  | .eof =>
    if task.wrapper.ended || task.wrapper.dropped then none
    else
      some { task with
        wrapper := { task.wrapper with ended := true }
        channel := match task.wrapper.completed.finish P with
          | some assistant => .sent assistant
          | none => .closed }
  | .drop =>
    if task.wrapper.ended || task.wrapper.dropped then none
    else some { task with wrapper := { task.wrapper with dropped := true }, channel := .closed }

/-! ## The outer task -/

/-- A warmup that is not to go on. -/
def windDown (s : Shared) (task : Task ε R M) : Task ε R M :=
  let task := { task with warmupCancel := true }
  match task.slot with
  -- never poll an unstarted warmup
  | none => { task with outer := .ended }
  | some context =>
    { task with
      slot := none
      stopped := task.stopped ++ [context]
      outer := .winding (s.now + prefillWindDownGrace) }

/-- The task is polled: it looks at the token first. -/
def poll (s : Shared) (task : Task ε R M) : Option (Task ε R M) :=
  match task.outer with
  | .waiting =>
    if s.cancelled.contains task.owner then some { task with outer := .ended }
    else some { task with outer := .receiving }
  | .warming deadline =>
    if s.cancelled.contains task.owner then some (task.windDown s)
    else some { task with outer := .polling deadline }
  | _ => none

/-- What the poll comes to when nothing more can be done in it. -/
def settle (s : Shared) (task : Task ε R M) : Option (Task ε R M) :=
  match task.outer with
  | .receiving =>
    match task.channel with
    | .waiting => some { task with outer := .waiting }
    | .closed => some { task with outer := .ended }
    | .sent assistant =>
      some { task with
        assistant := some assistant
        received := s.now
        outer := .warming (s.now + prefillTaskTimeout) }
  | .polling deadline =>
    match task.inner with
    | .finished => some { task with outer := .ended }
    | .joining =>
      match task.closure with
      | .returned _ => none
      | _ =>
        if deadline ≤ s.now then some (task.windDown s)
        else some { task with outer := .warming deadline }
    | .generating | .draining =>
      if deadline ≤ s.now then some (task.windDown s)
      else some { task with outer := .warming deadline }
    | _ => none
  | .winding deadline =>
    match task.inner with
    | .finished => some { task with outer := .ended }
    | .generating | .draining =>
      if deadline ≤ s.now then some { task with outer := .ended } else none
    | _ => none
  | _ => none

/-! ## The warmup -/

/-- The task is being polled, and polls the warmup. -/
def polls (task : Task ε R M) : Bool :=
  match task.outer with
  | .polling _ => true
  | .winding _ => true
  | _ => false

/-- What the pipeline gives a warmup that waits for it. -/
inductive Reply
  | accepted
  | refused
  | exhausted

/-- `prefill_task`, up to where it awaits. -/
def advance (s : Shared) (task : Task ε R M) : Option (Shared × Task ε R M) :=
  match task.inner with
  | .unstarted =>
    if task.isCancelled s then some (s, { task with inner := .finished })
    else some (s, { task with inner := .admitting })
  | .admitting =>
    match s.free with
    | 0 => some (s, { task with inner := .finished })
    | free + 1 => some ({ s with free }, { task with inner := .spawning })
  | .spawning => some (s, { task with inner := .joining, closure := .queued })
  | .joining =>
    match task.closure with
    | .returned (some ids) => some (s, { task with inner := .built ids })
    | .returned none => some (s, { task with inner := .finished })
    | _ => none
  | .built ids =>
    if task.isCancelled s then some (s, { task with inner := .finished })
    else some (s, { task with inner := .rechecked ids })
  | .rechecked ids => some (s, { task with inner := .published ids, slot := some .request })
  | .published ids =>
    some (s, { task with inner := .generating, dispatched := task.dispatched ++ [ids] })
  | _ => none

/-- The pipeline answers a warmup. -/
def answer (task : Task ε R M) : Reply → Option (Task ε R M)
  | .accepted =>
    if task.inner = .generating then
      some { task with inner := .draining, slot := some .response }
    else none
  | .refused =>
    if task.inner = .generating then some { task with inner := .finished } else none
  | .exhausted =>
    if task.inner = .draining then some { task with inner := .finished } else none

/-! ## The blocking thread -/

/-- The closure returns and gives its permit back. -/
def giveBack (s : Shared) (task : Task ε R M) (ids : Option (List Nat)) : Shared × Task ε R M :=
  ({ s with free := s.free + 1 }, { task with closure := .returned ids })

/-- A step of the closure.  An error of the formatter or the tokenizer ends the warmup as an empty
result does. -/
def work (s : Shared) (task : Task ε R M) : Option (Shared × Task ε R M) :=
  match task.closure with
  | .queued =>
    if task.isCancelled s then some (task.giveBack s none)
    else some (s, { task with closure := .checked })
  | .checked =>
    if !task.preprocessing.tokenizer.supported || task.isCancelled s then
      some (task.giveBack s none)
    else some (s, { task with closure := .supported })
  | .supported =>
    match task.assistant with
    | none => none
    | some assistant =>
      match task.preprocessing.renderSpeculativeToolPrefix (task.request.push assistant) with
      | .ok (some text) => some (s, { task with closure := .rendered text })
      | _ => some (task.giveBack s none)
  | .rendered text =>
    if task.isCancelled s then some (task.giveBack s none)
    else some (s, { task with closure := .encoding text })
  | .encoding text =>
    match task.preprocessing.tokenizer.encode text, task.preprocessing.tokenizer.encode endToken with
    | .ok ids, .ok closed =>
      if closed ≠ [endTokenId] ∨ ids.getLast? ≠ some endTokenId then some (task.giveBack s none)
      else some (task.giveBack s (some ids))
    | _, _ => some (task.giveBack s none)
  | _ => none

/-- The closure panics, or is dropped before it ran. -/
def fail (s : Shared) (task : Task ε R M) : Option (Shared × Task ε R M) :=
  if task.closure.isRunning then some (task.giveBack s none) else none

/-! ## All of it -/

inductive Act
  | stream (action : StreamAction)
  | poll
  | settle
  | advance
  | answer (reply : Reply)
  | work
  | fail

def step (P : Protocol M) (s : Shared) (task : Task ε R M) : Act → Option (Shared × Task ε R M)
  | .stream action => (task.stream P action).map (s, ·)
  | .poll => (task.poll s).map (s, ·)
  | .settle => (task.settle s).map (s, ·)
  | .advance => if task.polls then task.advance s else none
  | .answer reply => if task.polls then (task.answer reply).map (s, ·) else none
  | .work => task.work s
  | .fail => task.fail s

end Task

/-- The client asks for a warmup, and the deployment and the request are ones it supports. -/
def wrapped (cacheIdentitySupported : Bool) (request : ChatRequest R M) : Bool :=
  request.speculativePrefill.getD false && cacheIdentitySupported &&
    request.n.getD 1 == 1 && request.continueFinalMessage != some true

/-- A wrapped stream and its task. -/
structure Enter (ε R M : Type) where
  owner : Nat
  cacheIdentitySupported : Bool
  request : ChatRequest R M
  preprocessing : PrefillPreprocessing ε R

/-- `maybe_wrap_stream`: the stream of a request that is not to be warmed is returned as it is, and
no task is spawned. -/
def maybeWrapStream (call : Enter ε R M) : Option (Task ε R M) :=
  if wrapped call.cacheIdentitySupported call.request then
    some {
      owner := call.owner
      request := call.request
      preprocessing := call.preprocessing
      wrapper := ⟨.default, [], false, false⟩
      channel := .waiting
      outer := .waiting
      assistant := none
      received := 0
      warmupCancel := false
      inner := .unstarted
      closure := .none
      slot := none
      dispatched := []
      stopped := [] }
  else none

inductive Env
  /-- The runtime shuts down, or owners are dropped. -/
  | cancel (owners : List Nat)
  | tick (ms : Nat)

/-- Warmups of any number of owners in one process. -/
def prefills (ε R : Type) (P : Protocol M) :
    Processes.System Shared (Task ε R M) Task.Act Env (Enter ε R M) where
  own := Task.step P
  env s
    | .cancel owners => some { s with cancelled := owners ++ s.cancelled }
    | .tick ms => some { s with now := s.now + ms }
  enter s call := (maybeWrapStream call).map (s, ·)

def noPrefills : Processes.World Shared (Task ε R M) := ⟨⟨maxBlockingPrefills, [], 0⟩, []⟩

end ReedCode.SpeculativePrefill
