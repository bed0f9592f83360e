import ReedCode.Lib.Runs
import Mathlib.Data.List.Basic

/-!
# Rolling preparation

`RollingPreparation` of `controller.py` as steps of the event loop.  What runs between two awaits is
one step; a cancelled task gets its `CancelledError` when it is resumed.

* `beforeDispatch`, `afterResponse` — the calls of the session; both run without an await.
* `resume` — the next step of a preparation task: its start, its return from the shielded
  prediction, or a return into the transport call.
* `predictionStarts`, `predictionFinishes` — the thread; `timeoutFires` — the timeout scope;
  `runCallback` — the done callback, which the loop runs after the task is done;
  `drainCancel` — the cancellations of `drain`.

A step that is not possible is `none`.  Times come with the steps.  `log` records what happened,
the latest in front.
-/

set_option autoImplicit false

namespace ReedCode.NextTurn.Rolling

/-! ## Rows -/

inductive Status where
  | off
  | pending
  | ineligible
  | skippedPriorCleanupPending
  | predicting
  | declined
  | inFlight
  | completed
  | cancelled
  | error
  | cancelledBeforeStart
  deriving DecidableEq, Repr

/-- The attempt is over. -/
def Status.terminal : Status → Bool
  | pending | predicting | inFlight => false
  | _ => true

structure Row where
  triggerRequestId : String
  snapshotReady : Nat
  status : Status
  reason : Option String
  errorType : Option String
  nextDispatch : Option Nat
  cancelRequested : Option Nat
  cpuStarted : Option Nat
  cpuFinished : Option Nat
  predictionIds : Option (List Nat)
  preparationDispatch : Option Nat
  ended : Option Nat
  deriving DecidableEq, Repr

/-! ## Tasks -/

/-- What comes back from the thread through the shield. -/
inductive Prediction where
  | ids (ids : List Nat)
  | failed (errorType : String)
  | cancelled
  deriving DecidableEq, Repr

/-- What a step of the transport call comes to. -/
inductive Transport where
  | waits
  | returns
  | fails (errorType : String)
  | cancelled
  deriving DecidableEq, Repr

/-- Where a task stands.  In the transport call: the cancellations when its timeout scope was
entered, and whether the timeout has fired. -/
inductive Pc where
  | fresh
  | predicting
  | inTransport (cancelling : Nat) (expiring : Bool)
  | finished (cancelled : Bool)
  deriving DecidableEq, Repr

/-- A task of `_prepare`, with its row and the prediction it waits for. -/
structure Job where
  row : Nat
  pc : Pc
  cancelPending : Bool
  cancelling : Nat
  cpu : Option Prediction
  callbackRun : Bool
  deriving DecidableEq, Repr

def Job.done (job : Job) : Bool :=
  match job.pc with
  | .finished _ => true
  | _ => false

/-- `task.cancel()`. -/
def Job.cancel (job : Job) : Job :=
  if job.done then job
  else { job with cancelPending := true, cancelling := job.cancelling + 1 }

/-! ## States -/

inductive Event where
  | created (row : Nat)
  | dispatchIntent
  | transport (row : Nat)
  deriving DecidableEq, Repr

structure State where
  attempts : List Row
  jobs : List Job
  active : Option Nat
  activeRow : Option Nat
  log : List Event
  deriving DecidableEq, Repr

def State.init : State := ⟨[], [], none, none, []⟩

def State.setRow (s : State) (i : Nat) (f : Row → Row) : State :=
  { s with attempts := s.attempts.modify i f }

def State.setJob (s : State) (j : Nat) (f : Job → Job) : State :=
  { s with jobs := s.jobs.modify j f }

/-- `self.active and not self.active.done()`. -/
def State.busy (s : State) : Bool :=
  match s.active.bind fun j => s.jobs[j]? with
  | some job => !job.done
  | none => false

inductive Action where
  | beforeDispatch (now : Nat)
  | afterResponse (now : Nat) (requestId : String) (issue : Option String)
  | resume (j now : Nat) (transport : Transport)
  | predictionStarts (j now : Nat)
  | predictionFinishes (j now : Nat) (prediction : Prediction)
  | timeoutFires (j : Nat)
  | runCallback (j now : Nat)
  | drainCancel
  deriving DecidableEq, Repr

/-! ## The calls of the session -/

def State.beforeDispatch (s : State) (now : Nat) : State :=
  let s := { s with log := .dispatchIntent :: s.log }
  let s := s.setRow (s.attempts.length - 1) fun row => { row with nextDispatch := some now }
  if s.busy then
    let s := match s.activeRow with
      | some i => s.setRow i fun row => { row with cancelRequested := some now }
      | none => s
    match s.active with
    | some j => s.setJob j Job.cancel
    | none => s
  else s

def newRow (enabled : Bool) (now : Nat) (requestId : String) : Row where
  triggerRequestId := requestId
  snapshotReady := now
  status := if enabled then .pending else .off
  reason := none
  errorType := none
  nextDispatch := none
  cancelRequested := none
  cpuStarted := none
  cpuFinished := none
  predictionIds := none
  preparationDispatch := none
  ended := none

def State.appendRow (s : State) (row : Row) : State :=
  { s with attempts := s.attempts ++ [row], log := .created s.attempts.length :: s.log }

/-- `asyncio.create_task(self._prepare(...))` for the last row. -/
def State.createTask (s : State) : State :=
  { s with
    jobs := s.jobs ++ [⟨s.attempts.length - 1, .fresh, false, 0, none, false⟩]
    active := some s.jobs.length
    activeRow := some (s.attempts.length - 1) }

def State.afterResponse (enabled : Bool) (s : State) (now : Nat) (requestId : String)
    (issue : Option String) : State :=
  let row := newRow enabled now requestId
  if issue.any (· ≠ "") then s.appendRow { row with status := .ineligible, reason := issue }
  else if !enabled then s.appendRow row
  else if s.busy then s.appendRow { row with status := .skippedPriorCleanupPending }
  else (s.appendRow row).createTask

/-! ## Steps of a task -/

/-- The end of `_prepare`: the status, and `finally`. -/
def State.settle (s : State) (j : Nat) (job : Job) (now : Nat) (status : Status)
    (errorType : Option String) : State :=
  (s.setRow job.row fun row => { row with status, errorType, ended := some now }).setJob j fun job =>
    { job with pc := .finished false, cancelPending := false }

/-- The first step: up to the shielded prediction. -/
def State.start (s : State) (j : Nat) (job : Job) : State :=
  if job.cancelPending then
    -- the error is thrown into a coroutine that has not begun
    s.setJob j fun job => { job with pc := .finished true, cancelPending := false }
  else
    (s.setRow job.row fun row => { row with status := .predicting }).setJob j fun job =>
      { job with pc := .predicting }

/-- From the prediction into the transport call. -/
def State.predicted (s : State) (j : Nat) (job : Job) (now : Nat) : Option State :=
  if job.cancelPending then some (s.settle j job now .cancelled none)
  else
    match job.cpu with
    | none => none
    | some .cancelled => some (s.settle j job now .cancelled none)
    | some (.failed errorType) => some (s.settle j job now .error (some errorType))
    | some (.ids ids) =>
      let s := s.setRow job.row fun row => { row with predictionIds := some ids }
      if ids.isEmpty then some (s.settle j job now .declined none)
      else
        let s := s.setRow job.row fun row =>
          { row with status := .inFlight, preparationDispatch := some now }
        let s := { s with log := .transport job.row :: s.log }
        some (s.setJob j fun job => { job with pc := .inTransport job.cancelling false })

/-- A return into the transport call, and out of the timeout scope once it is over. -/
def State.transported (s : State) (j : Nat) (job : Job) (now : Nat) (cancelling : Nat)
    (expiring : Bool) : Transport → State
  | .waits => s.setJob j fun job => { job with cancelPending := false }
  | .returns => s.settle j job now .completed none
  | .fails errorType => s.settle j job now .error (some errorType)
  | .cancelled =>
    -- the scope turns its own cancellation, and no other, into a timeout
    if expiring && job.cancelling - 1 ≤ cancelling then
      s.settle j job now .error (some "TimeoutError")
    else s.settle j job now .cancelled none

def State.resume (s : State) (j now : Nat) (transport : Transport) : Option State :=
  match s.jobs[j]? with
  | none => none
  | some job =>
    match job.pc with
    | .fresh => some (s.start j job)
    | .predicting => s.predicted j job now
    | .inTransport cancelling expiring => some (s.transported j job now cancelling expiring transport)
    | .finished _ => none

/-! ## The thread, the timeout and the callback -/

/-- The thread runs `prediction` of a task that has begun. -/
def State.predictionStarts (s : State) (j now : Nat) : Option State :=
  match s.jobs[j]? with
  | some job =>
    match job.pc with
    | .fresh | .finished true => none
    | _ => some (s.setRow job.row fun row => { row with cpuStarted := some now })
  | none => none

def State.predictionFinishes (s : State) (j now : Nat) (prediction : Prediction) : Option State :=
  match s.jobs[j]? with
  | some job =>
    match job.pc, job.cpu with
    | .fresh, _ | .finished true, _ | _, some _ => none
    | _, none => some ((s.setRow job.row fun row => { row with cpuFinished := some now }).setJob j
        fun job => { job with cpu := some prediction })
  | none => none

/-- `Timeout._on_timeout`. -/
def State.timeoutFires (s : State) (j : Nat) : Option State :=
  match s.jobs[j]? with
  | some job =>
    match job.pc with
    | .inTransport cancelling false =>
      some (s.setJob j fun job => { job.cancel with pc := .inTransport cancelling true })
    | _ => none
  | none => none

/-- `complete(job)`. -/
def State.runCallback (s : State) (j now : Nat) : Option State :=
  match s.jobs[j]? with
  | some job =>
    match job.pc, job.callbackRun with
    | .finished cancelled, false =>
      let s := s.setJob j fun job => { job with callbackRun := true }
      some (if cancelled then
        s.setRow job.row fun row => { row with status := .cancelledBeforeStart, ended := some now }
      else s)
    | _, _ => none
  | none => none

/-- `drain` cancels the tasks that are not done. -/
def State.drainCancel (s : State) : State := { s with jobs := s.jobs.map Job.cancel }

def step (enabled : Bool) (s : State) : Action → Option State
  | .beforeDispatch now => some (s.beforeDispatch now)
  | .afterResponse now requestId issue => some (s.afterResponse enabled now requestId issue)
  | .resume j now transport => s.resume j now transport
  | .predictionStarts j now => s.predictionStarts j now
  | .predictionFinishes j now prediction => s.predictionFinishes j now prediction
  | .timeoutFires j => s.timeoutFires j
  | .runCallback j now => s.runCallback j now
  | .drainCancel => some s.drainCancel

end ReedCode.NextTurn.Rolling
