import ReedCode.Lib.Lru
import ReedCode.Headroom.Workload

/-!
# The scheduling simulation

`Simulation`: one GPU, a bounded cache of block keys, a queue of ready requests and a heap of
events, under three preparation policies.

* An exception (a missing key, an index out of range, `next` on an exhausted iterator) is `none`.
* The heap is the list of its events in the order in which they are popped; the ordered
  dictionaries are insertion-ordered maps.
* Times are over any linear order with the operations the code uses.
* `history` is not in the source: it records which jobs were finished and which keys evicted,
  and nothing reads it.
-/

set_option autoImplicit false

universe u

namespace ReedCode.Headroom

/-! ## The state -/

inductive Policy | off | eager | futureTiming
  deriving DecidableEq

inductive Mark | pending | ordinary | speculative
  deriving DecidableEq

inductive Status | running | completed | cancelled | timeout
  deriving DecidableEq

variable (T : Type u) [Zero T] (κ : Type u)

/-- One row of the turns of a workflow. -/
structure TurnRow where
  turn : Nat
  readyMs : T
  completedMs : T
  cachedBlocks : Nat

structure WorkflowState where
  workflow : Workflow T
  status : Status
  turns : List (TurnRow T)
  completionMs : Option T

structure Intent where
  index : Nat
  revision : Nat
  keys : List κ
  readyAt : T
  active : Bool
  eligibleAt : T
  willCancel : Bool

inductive Job
  | demand (workflow : String) (index : Nat) (keys : List κ) (ready : T) (cached : Nat)
  | speculative (workflow : String) (revision : Nat) (computed : List κ)

inductive Action
  | finished (job : Job T κ)
  | update (ident : String) (index : Nat) (update : Update T)
  | ready (ident : String) (index : Nat)
  | arrival (ident : String)
  | deadline (ident : String)
  | wake

structure Event where
  time : T
  serial : Nat
  action : Action T κ

/-- An entry of the queue. -/
structure Request where
  workflow : String
  index : Nat
  ready : T

inductive LogEntry
  | deadline (workflow : String)
  | requestReady (workflow : String) (turn : Nat)
  | cancel (workflow : String)
  | revision (workflow : String) (revision : Nat)
  | preparationFinished (workflow : String) (blocks : Nat) (obsolete : Bool)
  | requestFinished (workflow : String) (turn : Nat)
  | requestStarted (workflow : String) (turn : Nat) (costMs : T) (cachedBlocks : Nat)
  | preparationStarted (workflow : String) (revision blocks : Nat)

structure Stats where
  demandComputeMs : T := 0
  speculativeComputeMs : T := 0
  speculativeBlocksComputed : Nat := 0
  usefulSpeculativeBlocks : Nat := 0
  ordinaryCachedBlocks : Nat := 0
  cacheBlockMs : T := 0
  peakCacheBlocks : Nat := 0
  obsoleteBlocksCompleted : Nat := 0
  lateBlocksCompleted : Nat := 0

/-- What happened to the cache: a job finished, or a key was evicted to admit keys. -/
inductive CacheEvent
  | finished (job : Job T κ)
  | evicted (key : κ) (admitted : List κ)

structure Simulation where
  now : T
  events : List (Event T κ)
  serial : Nat
  cache : FinMap κ Mark
  queue : List (Request T)
  busy : Bool
  intents : FinMap String (Intent T κ)
  states : FinMap String (WorkflowState T)
  trace : List (T × LogEntry T)
  stats : Stats T
  history : List (CacheEvent T κ)

/-- What does not change during a run. -/
structure Setup where
  digest : Digest κ
  workload : Workload T
  policy : Policy

variable {T κ} [LinearOrder T] [Add T] [Sub T] [Mul T] [NatCast T] [DecidableEq κ]

/-- The keys that must still be cached when the job finishes. -/
def Job.keys : Job T κ → List κ
  | demand _ _ keys _ _ => keys
  | speculative _ _ computed => computed

/-- The keys whose blocks the job computes. -/
def Job.computed : Job T κ → List κ
  | demand _ _ keys _ cached => keys.drop cached
  | speculative _ _ computed => computed

/-! ## Events -/

/-- `EVENT_ORDER`. -/
def Action.order : Action T κ → Nat
  | finished _ => 0
  | update .. => 1
  | ready .. => 2
  | arrival _ => 3
  | deadline _ => 4
  | wake => 5

/-- The order of the heap. -/
def Event.before (a b : Event T κ) : Prop :=
  a.time < b.time ∨ a.time = b.time ∧ (a.action.order < b.action.order ∨
    a.action.order = b.action.order ∧ a.serial < b.serial)

instance (a b : Event T κ) : Decidable (a.before b) := by unfold Event.before; infer_instance

def push (event : Event T κ) : List (Event T κ) → List (Event T κ)
  | [] => [event]
  | e :: events => if event.before e then event :: e :: events else e :: push event events

namespace Simulation

def event (s : Simulation T κ) (time : T) (action : Action T κ) : Simulation T κ :=
  { s with serial := s.serial + 1, events := push ⟨time, s.serial + 1, action⟩ s.events }

def log (s : Simulation T κ) (entry : LogEntry T) : Simulation T κ :=
  { s with trace := s.trace ++ [(s.now, entry)] }

def advance (s : Simulation T κ) (time : T) : Simulation T κ :=
  { s with
    stats := { s.stats with
      cacheBlockMs := s.stats.cacheBlockMs + (time - s.now) * (s.cache.size : Nat) }
    now := time }

end Simulation

/-! ## The cache -/

/-- The number of keys up to the first that is missing or pending. -/
def cachedPrefix (cache : FinMap κ Mark) : List κ → Nat
  | [] => 0
  | key :: keys =>
    match cache.get? key with
    | none | some .pending => 0
    | some _ => cachedPrefix cache keys + 1

def markAll (mark : Mark) (keys : List κ) (cache : FinMap κ Mark) : FinMap κ Mark :=
  keys.foldl (fun cache key => cache.insert key mark) cache

namespace Simulation

variable (S : Setup T κ) (s : Simulation T κ)

def reserve (keys : List κ) : Option (Simulation T κ) :=
  (Lru.load S.workload.cacheBlocks .pending keys s.cache).map fun r =>
    { s with
      cache := r.2
      stats := { s.stats with peakCacheBlocks := max s.stats.peakCacheBlocks r.2.size }
      history := r.1.reverse.map (.evicted · keys) ++ s.history }

/-! ## Turns -/

def scheduleWakeup (intent : Intent T κ) : Simulation T κ :=
  if S.policy = .futureTiming ∧ intent.active = true then
    let missing := intent.keys.length - cachedPrefix s.cache intent.keys
    let time := max (max s.now intent.eligibleAt)
      (intent.readyAt - (missing : Nat) * S.workload.prefillBlockMs)
    if s.now < time ∧ time < intent.readyAt then s.event time .wake else s
  else s

/-- The intent of a tool wait that begins now. -/
def newIntent (index : Nat) (turn : Turn T) : Intent T κ where
  index := index
  revision := 0
  keys := S.digest.blockKeys turn.intent
  readyAt := s.now + turn.waitMs
  active := true
  eligibleAt :=
    if S.policy = .futureTiming then s.now + ((turn.updates.map (·.atMs)).max?.getD 0) else s.now
  willCancel := S.policy = .futureTiming ∧ ∃ update ∈ turn.updates, update.change = .cancel

/-- The events of the updates of a tool wait. -/
def scheduleUpdates (ident : String) (index : Nat) (updates : List (Update T)) : Simulation T κ :=
  updates.foldl (fun s update => s.event (s.now + update.atMs) (.update ident index update)) s

def startTurn (ident : String) (index : Nat) : Option (Simulation T κ) := do
  let state ← s.states.get? ident
  if state.status ≠ .running then some s
  else
    let turn ← state.workflow.turns[index]?
    let s' := s.event (s.now + turn.waitMs) (.ready ident index)
    if index = 0 then some s'
    else
      let intent := s.newIntent S index turn
      let s' := { s' with intents := s'.intents.insert ident intent }
      some ((s'.scheduleUpdates ident index turn.updates).scheduleWakeup S intent)

def setStatus (ident : String) (state : WorkflowState T) (status : Status) : Simulation T κ :=
  { s with states := s.states.insert ident { state with status := status } }

/-- The intent of a workflow, if there is one, is active no longer. -/
def deactivate (ident : String) : Simulation T κ :=
  match s.intents.get? ident with
  | none => s
  | some intent => { s with intents := s.intents.insert ident { intent with active := false } }

/-! ## Handlers -/

def handleDeadline (ident : String) : Option (Simulation T κ) := do
  let state ← s.states.get? ident
  if state.status = .running then
    some (((s.setStatus ident state .timeout).deactivate ident).log (.deadline ident))
  else some s

def handleReady (ident : String) (index : Nat) : Option (Simulation T κ) := do
  let state ← s.states.get? ident
  if state.status = .running then
    let s := s.deactivate ident
    let s := { s with queue := s.queue ++ [Request.mk ident index s.now] }
    some (s.log (.requestReady ident index))
  else some s

def handleUpdate (ident : String) (index : Nat) (update : Update T) : Option (Simulation T κ) :=
  match s.intents.get? ident with
  | none => some s
  | some intent =>
    if intent.index ≠ index then some s
    else do
      let state ← s.states.get? ident
      if state.status ≠ .running then some s
      else
        let intent := { intent with revision := intent.revision + 1 }
        match update.change with
        | .cancel =>
          let s := { s with intents := s.intents.insert ident { intent with active := false } }
          some ((s.setStatus ident state .cancelled).log (.cancel ident))
        | .prefixBlocks blocks =>
          let intent := { intent with keys := S.digest.blockKeys blocks }
          let s := { s with intents := s.intents.insert ident intent }
          some ((s.log (.revision ident intent.revision)).scheduleWakeup S intent)

def finishPreparation (workflow : String) (revision : Nat) (computed : List κ) :
    Option (Simulation T κ) := do
  let current ← s.intents.get? workflow
  let state ← s.states.get? workflow
  let obsolete := decide (state.status = .cancelled ∨ state.status = .timeout ∨
    current.revision ≠ revision)
  let stats := { s.stats with
    obsoleteBlocksCompleted :=
      s.stats.obsoleteBlocksCompleted + if obsolete then computed.length else 0
    lateBlocksCompleted :=
      s.stats.lateBlocksCompleted + if current.readyAt < s.now then computed.length else 0 }
  some ({ s with stats := stats, cache := markAll .speculative computed s.cache }.log
    (.preparationFinished workflow computed.length obsolete))

def finishRequest (workflow : String) (index : Nat) (keys : List κ) (ready : T) (cached : Nat) :
    Option (Simulation T κ) := do
  let s := { s with cache := markAll .ordinary keys s.cache }
  let state ← s.states.get? workflow
  let state := { state with turns := state.turns ++ [⟨index, ready, s.now, cached⟩] }
  let s := { s with states := s.states.insert workflow state }.log (.requestFinished workflow index)
  if state.status ≠ .running then some s
  else if index + 1 = state.workflow.turns.length then
    let state := { state with
      status := .completed
      completionMs := some (s.now - state.workflow.arrivalMs) }
    some { s with states := s.states.insert workflow state }
  else s.startTurn S workflow (index + 1)

def handle : Action T κ → Option (Simulation T κ)
  | .arrival ident => s.startTurn S ident 0
  | .deadline ident => s.handleDeadline ident
  | .ready ident index => s.handleReady ident index
  | .update ident index update => s.handleUpdate S ident index update
  | .finished job =>
    let s := { s with busy := false, history := .finished job :: s.history }
    match job with
    | .speculative workflow revision computed => s.finishPreparation workflow revision computed
    | .demand workflow index keys ready cached => s.finishRequest S workflow index keys ready cached
  | .wake => some s

/-! ## Dispatch -/

/-- Pop requests until one of a running workflow. -/
def popRunning : List (Request T) → Option (Option (Request T) × List (Request T))
  | [] => some (none, [])
  | request :: rest => do
    let state ← s.states.get? request.workflow
    if state.status ≠ .running then popRunning rest else some (some request, rest)

/-- Count one cached block of a prompt. -/
def credit (s : Simulation T κ) (key : κ) : Simulation T κ :=
  { s with
    stats :=
      if s.cache.get? key = some .speculative then
        { s.stats with usefulSpeculativeBlocks := s.stats.usefulSpeculativeBlocks + 1 }
      else { s.stats with ordinaryCachedBlocks := s.stats.ordinaryCachedBlocks + 1 }
    cache := s.cache.insert key .ordinary }

def startRequest (request : Request T) : Option (Simulation T κ) := do
  let state ← s.states.get? request.workflow
  let turn ← state.workflow.turns[request.index]?
  let prompt := S.digest.blockKeys turn.promptBlocks
  let keys := S.digest.blockKeys (turn.promptBlocks ++ turn.generatedBlocks)
  let cached := cachedPrefix s.cache prompt
  let s := (prompt.take cached).foldl credit s
  let cost := (prompt.length - cached : Nat) * S.workload.prefillBlockMs + turn.decodeMs
  let s ← s.reserve S keys
  let s := { s with
    stats := { s.stats with demandComputeMs := s.stats.demandComputeMs + cost }, busy := true }
  let s := s.log (.requestStarted request.workflow request.index cost cached)
  some (s.event (s.now + cost)
    (.finished (.demand request.workflow request.index keys request.ready cached)))

def startPreparation (ident : String) (intent : Intent T κ) (cached count : Nat) :
    Option (Simulation T κ) := do
  let target := intent.keys.take (cached + count)
  let computed := target.drop cached
  let s ← s.reserve S target
  let cost := (count : Nat) * S.workload.prefillBlockMs
  let s := { s with
    stats := { s.stats with
      speculativeBlocksComputed := s.stats.speculativeBlocksComputed + count
      speculativeComputeMs := s.stats.speculativeComputeMs + cost }
    busy := true }
  let s := s.log (.preparationStarted ident intent.revision count)
  some (s.event (s.now + cost) (.finished (.speculative ident intent.revision computed)))

/-- The loop over the intents. -/
def prepare (remaining : Nat) : List (String × Intent T κ) → Simulation T κ →
    Option (Simulation T κ)
  | [], s => some s
  | (ident, intent) :: rest, s =>
    if intent.active = false then prepare remaining rest s
    else do
      let state ← s.states.get? ident
      let cached := cachedPrefix s.cache intent.keys
      if state.status ≠ .running ∨ cached = intent.keys.length then prepare remaining rest s
      else if S.policy = .futureTiming ∧ (intent.willCancel = true ∨ s.now < intent.eligibleAt) then
        prepare remaining rest s
      else if S.policy = .futureTiming ∧
          s.now < intent.readyAt - (intent.keys.length - cached : Nat) * S.workload.prefillBlockMs then
        prepare remaining rest (s.scheduleWakeup S intent)
      else
        s.startPreparation S ident intent cached
          (min (min (intent.keys.length - cached) remaining) S.workload.speculativeChunkBlocks)

def dispatch : Option (Simulation T κ) :=
  if s.busy = true then some s
  else do
    let (request, rest) ← s.popRunning s.queue
    let s := { s with queue := rest }
    match request with
    | some request => s.startRequest S request
    | none =>
      let remaining := S.workload.speculativeBlockBudget - s.stats.speculativeBlocksComputed
      if S.policy = .off ∨ remaining = 0 then some s
      else prepare S remaining s.intents.entries s

end Simulation

/-! ## The run -/

def observationEnd (workload : Workload T) : T :=
  (workload.workflows.map (·.arrivalMs)).max?.getD 0 + workload.horizonMs

/-- Where `run` stands: at the outer loop, in the loop over the events of an instant, or behind
both. -/
inductive Phase (T : Type u)
  | loop
  | instant (time : T)
  | done

structure Config (T : Type u) [Zero T] (κ : Type u) where
  phase : Phase T
  sim : Simulation T κ

def Simulation.new : Simulation T κ :=
  ⟨0, [], 0, .empty, [], false, .empty, .empty, [], {}, []⟩

def Simulation.enter (horizon : T) (s : Simulation T κ) (workflow : Workflow T) :
    Simulation T κ :=
  let s := { s with states := s.states.insert workflow.id ⟨workflow, .running, [], none⟩ }
  (s.event workflow.arrivalMs (.arrival workflow.id)).event (workflow.arrivalMs + horizon)
    (.deadline workflow.id)

/-- The state in front of the loop. -/
def start (S : Setup T κ) : Config T κ :=
  ⟨.loop, S.workload.workflows.foldl (Simulation.enter S.workload.horizonMs) .new⟩

/-- One test or one handled event of the nested loops. -/
def next (S : Setup T κ) (c : Config T κ) : Option (Config T κ) :=
  match c.phase, c.sim.events with
  | .loop, event :: _ =>
    if event.time ≤ observationEnd S.workload then
      some ⟨.instant event.time, c.sim.advance event.time⟩
    else some ⟨.done, c.sim.advance (observationEnd S.workload)⟩
  | .loop, [] => some ⟨.done, c.sim.advance (observationEnd S.workload)⟩
  | .instant time, event :: events =>
    if event.time = time then
      ({ c.sim with events := events }.handle S event.action).map (⟨.instant time, ·⟩)
    else (c.sim.dispatch S).map (⟨.loop, ·⟩)
  | .instant _, [] => (c.sim.dispatch S).map (⟨.loop, ·⟩)
  | .done, _ => some c

/-- The points a run comes to. -/
abbrev Reachable (S : Setup T κ) : Config T κ → Prop := Runs.Reachable (next S) (start S)

end ReedCode.Headroom
