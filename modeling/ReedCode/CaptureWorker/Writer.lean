import ReedCode.Lib.FinMap
import ReedCode.Lib.Runs
import ReedCode.Lib.Lines
import ReedCode.PyValue

/-!
# The capture writer

`Capture` of `capture_worker.py`: one thread that calls `write` and then `close`, and the thread
that runs `_writer`.

* `State.produce` — the next step of the producer inside `write` or `close`.
* `State.consume` — the next step of `_writer`.
* `step` — the calls of the producer and the steps of both threads, in any order.

A section under the lock is one step, but for that of `write`: the writer takes an entry from the
queue without the lock, so it can come between `put_nowait` and the count (`counting`).  The
waiting times of `get` and `join` are not modelled: a wait may be over at any time.
`task_done` and `notify_all` wake up `drain` and nothing else; they are left out.
-/

set_option autoImplicit false

namespace ReedCode.CaptureWorker

abbrev Text := List Char

/-! ## Records -/

/-- `json.dumps` as the writer calls it, with the `repr` of what it raises, and `json.loads`. -/
structure Json where
  dumps : Value → Except String Text
  loads : Text → Except String Value

/-- `{**base, **fields}`. -/
def update (base fields : List (String × Value)) : List (String × Value) :=
  fields.foldl (fun entries f => FinMap.insertEntry f.1 f.2 entries) base

/-- A call of `write`. -/
structure Call where
  kind : String
  fields : List (String × Value)
  deriving DecidableEq, Repr

def Call.record (call : Call) (processId : String) (pid sequence monotonic wall : Nat) : Value :=
  .dict (update
    [("schema_version", .int 1), ("kind", .str call.kind), ("sequence", .int sequence),
      ("capture_process_id", .str processId), ("pid", .int pid),
      ("worker_monotonic_ns", .int monotonic), ("worker_wall_ns", .int wall)] call.fields)

def captureStart : Call where
  kind := "capture_start"
  fields := [("computed_prefill_tokens", .null),
    ("computed_prefill_status", .str "not_exposed_by_AsyncLLM")]

def captureClose : Call := ⟨"capture_close", []⟩

def failure (sequence : Value) (stage error : String) : Value :=
  .dict [("sequence", sequence), ("stage", .str stage), ("error", .str error)]

def timing (sequence : Nat) (serialize enqueue : Int) : Value :=
  .dict [("sequence", .int sequence), ("serialize_ns", .int serialize), ("enqueue_ns", .int enqueue)]

/-! ## Status -/

structure Status where
  attemptedRecords : Nat
  queuedRecords : Nat
  captureProcessId : String
  persistedRecords : Nat
  failedWrites : Nat
  droppedRecords : Nat
  pendingRecords : Int
  failures : List Value
  callbackTimings : List Value
  validCapture : Bool
  summaryWritten : Bool
  deriving DecidableEq, Repr

def Status.fields (status : Status) : List (String × Value) :=
  [("attempted_records", .int status.attemptedRecords),
    ("queued_records", .int status.queuedRecords),
    ("capture_process_id", .str status.captureProcessId),
    ("persisted_records", .int status.persistedRecords),
    ("failed_writes", .int status.failedWrites),
    ("dropped_records", .int status.droppedRecords),
    ("pending_records", .int status.pendingRecords),
    ("failures", .list status.failures),
    ("callback_timings", .list status.callbackTimings),
    ("valid_capture", .bool status.validCapture),
    ("summary_written", .bool status.summaryWritten)]

/-- The line of `_writer` behind the records; it pops `summary_written`. -/
def Status.summary (status : Status) : Value :=
  .dict ((update [("kind", .str "writer_summary"),
    ("capture_process_id", .str status.captureProcessId)] status.fields).filter
      fun f => f.1 ≠ "summary_written")

/-- What `close` returns. -/
structure CloseStatus where
  status : Status
  drainTimeout : Bool
  deriving DecidableEq, Repr

def CloseStatus.value (result : CloseStatus) : Value :=
  .dict (result.status.fields ++ if result.drainTimeout then [("drain_timeout", .bool true)] else [])

/-! ## States -/

/-- An entry of the queue: the sequence number and the line. -/
abbrev Entry := Nat × Text

/-- Where the producer stands.  `closing` tells that `write` was called by `close`, `put` that the
entry is in the queue and not yet counted. -/
inductive Producer where
  | starting
  | idle
  | called (closing : Bool) (call : Call) (started : Nat)
  | refused (closing : Bool) (started : Nat) (error : String)
  | encoded (closing : Bool) (started : Nat) (text : Text)
  | counting (closing : Bool) (started serialized : Nat) (put : Bool)
  | closeWritten
  | closeMarked
  | joining
  | joined
  | timedOut
  | reporting
  | reported (status : Status)
  | judged (status : Status)
  | returned (result : CloseStatus)
  deriving DecidableEq, Repr

/-- Where `_writer` stands. -/
inductive Writer where
  | loop
  | stopping
  | getting
  | holding (entry : Entry)
  | wrote (entry : Entry)
  | failing (entry : Entry) (error : String)
  | summarizing
  | summarized (summary : Value) (text : Text)
  | summaryFailed (error : String)
  | flushed
  | closing
  | closeFailed (error : String)
  | exiting
  | ended
  deriving DecidableEq, Repr

/-- What has happened; the program does not read it. -/
structure History where
  calls : List Call
  records : List Value
  dropped : List Nat
  persisted : List Entry
  failed : List Entry
  summary : Option (Value × Text)
  deriving DecidableEq, Repr

structure State where
  processId : String
  pid : Nat
  capacity : Nat
  sequence : Nat
  queue : List Entry
  closed : Bool
  stop : Bool
  summaryWritten : Bool
  queued : Nat
  persisted : Nat
  failed : Nat
  dropped : Nat
  failures : List Value
  callbackTimings : List Value
  stream : Text
  producer : Producer
  writer : Writer
  history : History
  deriving DecidableEq, Repr

/-- `Capture(...)` on a fresh stream, up to its own call of `write`. -/
def State.new (processId : String) (pid capacity : Nat) : Except String State :=
  if capacity < 1 then .error "capture queue must have a positive capacity"
  else .ok ⟨processId, pid, capacity, 0, [], false, false, false, 0, 0, 0, 0, [], [], [],
    .starting, .loop, ⟨[], [], [], [], [], none⟩⟩

def State.status (s : State) : Status :=
  let pending : Int := s.queued - s.persisted - s.failed
  { attemptedRecords := s.sequence
    queuedRecords := s.queued
    captureProcessId := s.processId
    persistedRecords := s.persisted
    failedWrites := s.failed
    droppedRecords := s.dropped
    pendingRecords := pending
    failures := s.failures
    callbackTimings := s.callbackTimings
    validCapture := s.closed && pending == 0 && s.failures.isEmpty
    summaryWritten := s.summaryWritten }

/-- The producer holds the lock between two steps. -/
def State.locked (s : State) : Bool :=
  match s.producer with
  | .counting .. => true
  | _ => false

/-- `self.thread.is_alive()`. -/
def State.alive (s : State) : Bool := s.writer != .ended

/-! ## The producer -/

/-- The begin of `write`. -/
def State.call (s : State) (closing : Bool) (call : Call) (now : Nat) : State :=
  { s with
    sequence := s.sequence + 1
    producer := .called closing call now
    history := { s.history with calls := s.history.calls ++ [call] } }

/-- `write` returns to the caller or to `close`. -/
def State.return (s : State) (closing : Bool) : State :=
  { s with producer := if closing then .closeWritten else .idle }

/-- `self.dropped += 1` and the failure. -/
def State.drop (s : State) (stage error : String) : State :=
  { s with
    dropped := s.dropped + 1
    failures := s.failures ++ [failure (.int s.sequence) stage error]
    history := { s.history with dropped := s.history.dropped ++ [s.sequence] } }

def State.serialize (J : Json) (s : State) (closing : Bool) (call : Call)
    (started now wall : Nat) : State :=
  let record := call.record s.processId s.pid s.sequence now wall
  let s := { s with history := { s.history with records := s.history.records ++ [record] } }
  match J.dumps record with
  | .error error => { s with producer := .refused closing started error }
  | .ok text => { s with producer := .encoded closing started (text ++ ['\n']) }

def State.refuse (s : State) (closing : Bool) (started : Nat) (error : String) (now : Nat) : State :=
  let s := s.drop "serialization" error
  let s := { s with callbackTimings := s.callbackTimings ++ [timing s.sequence (now - started) 0] }
  s.return closing

/-- Up to the count: `put_nowait`, or the failure. -/
def State.enqueue (s : State) (closing : Bool) (started : Nat) (text : Text) (now : Nat) : State :=
  if s.closed then
    { s.drop "enqueue" "RuntimeError" with producer := .counting closing started now false }
  else if s.capacity ≤ s.queue.length then
    { s.drop "enqueue" "Full" with producer := .counting closing started now false }
  else
    { s with
      queue := s.queue ++ [(s.sequence, text)]
      producer := .counting closing started now true }

def State.count (s : State) (closing : Bool) (started serialized : Nat) (put : Bool)
    (now : Nat) : State :=
  let s := if put then { s with queued := s.queued + 1 } else s
  let s := { s with callbackTimings :=
    s.callbackTimings ++ [timing s.sequence (serialized - started) (now - serialized)] }
  s.return closing

def State.recordTimeout (s : State) : State :=
  { s with
    failures := s.failures ++
      [failure .null "close_timeout" "writer did not drain before deadline"]
    producer := .reporting }

/-- The next step of the producer; `now` and `wall` are what its clocks show. -/
def State.produce (J : Json) (s : State) (now wall : Nat) : Option State :=
  match s.producer with
  | .starting | .idle | .returned _ => none
  | .called closing call started => some (s.serialize J closing call started now wall)
  | .refused closing started error => some (s.refuse closing started error now)
  | .encoded closing started text => some (s.enqueue closing started text now)
  | .counting closing started serialized put => some (s.count closing started serialized put now)
  | .closeWritten => some { s with closed := true, producer := .closeMarked }
  | .closeMarked => some { s with stop := true, producer := .joining }
  | .joining => some { s with producer := .joined }
  | .joined => some { s with producer := if s.alive then .timedOut else .reporting }
  | .timedOut => some s.recordTimeout
  | .reporting => some { s with producer := .reported s.status }
  | .reported status =>
    let validCapture := status.validCapture && status.summaryWritten && !s.alive
    some { s with producer := .judged { status with validCapture } }
  | .judged status => some { s with producer := .returned ⟨status, s.alive⟩ }

/-! ## The writer -/

/-- What comes of an operation on the stream: when it fails, some text may have reached it. -/
inductive Outcome where
  | ok
  | fails (error : String) (reached : Text)
  deriving DecidableEq, Repr

/-- A section of the writer under the lock. -/
def State.whenFree (s s' : State) : Option State := if s.locked then none else some s'

def State.persist (s : State) (entry : Entry) : State :=
  { s with
    persisted := s.persisted + 1
    writer := .loop
    history := { s.history with persisted := s.history.persisted ++ [entry] } }

def State.fail (s : State) (entry : Entry) (error : String) : State :=
  { s with
    failed := s.failed + 1
    failures := s.failures ++ [failure (.int entry.1) "write" error]
    writer := .loop
    history := { s.history with failed := s.history.failed ++ [entry] } }

def State.summarize (J : Json) (s : State) : State :=
  match J.dumps s.status.summary with
  | .error error => { s with writer := .summaryFailed error }
  | .ok text => { s with writer := .summarized s.status.summary (text ++ ['\n']) }

/-- A failure that belongs to no record. -/
def State.recordFailure (s : State) (stage error : String) (writer : Writer) : State :=
  { s with failures := s.failures ++ [failure .null stage error], writer }

/-- The next step of `_writer`. -/
def State.consume (J : Json) (s : State) (outcome : Outcome) : Option State :=
  match s.writer with
  | .loop => some { s with writer := if s.stop then .stopping else .getting }
  | .stopping => some { s with writer := if s.queue.isEmpty then .summarizing else .getting }
  | .getting =>
    match s.queue with
    | [] => some { s with writer := .loop }
    | entry :: queue => some { s with queue, writer := .holding entry }
  | .holding entry =>
    match outcome with
    | .ok => some { s with stream := s.stream ++ entry.2, writer := .wrote entry }
    | .fails error reached =>
      some { s with stream := s.stream ++ reached, writer := .failing entry error }
  | .wrote entry => s.whenFree (s.persist entry)
  | .failing entry error => s.whenFree (s.fail entry error)
  | .summarizing => s.whenFree (s.summarize J)
  | .summarized summary text =>
    match outcome with
    | .ok => some { s with
        stream := s.stream ++ text
        writer := .flushed
        history := { s.history with summary := some (summary, text) } }
    | .fails error reached =>
      some { s with stream := s.stream ++ reached, writer := .summaryFailed error }
  | .flushed => some { s with summaryWritten := true, writer := .closing }
  | .summaryFailed error => s.whenFree (s.recordFailure "writer_summary" error .closing)
  | .closing =>
    match outcome with
    | .ok => some { s with writer := .exiting }
    | .fails error _ => some { s with writer := .closeFailed error }
  | .closeFailed error => s.whenFree (s.recordFailure "stream_close" error .exiting)
  | .exiting => some { s with writer := .ended }
  | .ended => none

/-! ## Runs -/

inductive Action where
  | start (now : Nat)
  | write (call : Call) (now : Nat)
  | close (now : Nat)
  | produce (now wall : Nat)
  | consume (outcome : Outcome)
  deriving DecidableEq, Repr

/-- The constructor's call comes first, and `close` after the last call. -/
def step (J : Json) (s : State) : Action → Option State
  | .start now => if s.producer = .starting then some (s.call false captureStart now) else none
  | .write call now => if s.producer = .idle then some (s.call false call now) else none
  | .close now =>
    if s.producer = .idle then
      some (if s.closed then { s with producer := .joining } else s.call true captureClose now)
    else none
  | .produce now wall => s.produce J now wall
  | .consume outcome => s.consume J outcome

end ReedCode.CaptureWorker
