import ReedCode.Headroom.Handlers
import ReedCode.Headroom.Life

/-!
# What a step does

The handlers and the dispatch as relations: one constructor for each way through the code, with
the state it ends in.

* `Turned`, `Handled`, `Dispatched` — the ways through `start_turn`, `handle` and `dispatch`.
* `startTurn_turned`, `handle_handled`, `dispatch_dispatched` — the code takes one of them.
-/

set_option autoImplicit false

universe u

namespace ReedCode.Headroom

variable {T : Type u} [LinearOrder T] [Zero T] {κ : Type u}

/-! ## Scheduled events -/

/-- Schedule several events. -/
def Simulation.schedule (s : Simulation T κ) (entries : List (T × Action T κ)) : Simulation T κ :=
  entries.foldl (fun s entry => s.event entry.1 entry.2) s

theorem Simulation.schedule_append (s : Simulation T κ) (xs ys : List (T × Action T κ)) :
    s.schedule (xs ++ ys) = (s.schedule xs).schedule ys := List.foldl_append

/-- The invariant rule for scheduled events. -/
theorem Simulation.schedule_induction {P : Simulation T κ → Prop}
    {entries : List (T × Action T κ)}
    (hevent : ∀ s, P s → ∀ entry ∈ entries, P (s.event entry.1 entry.2)) {s : Simulation T κ}
    (h : P s) : P (s.schedule entries) := by
  induction entries generalizing s with
  | nil => exact h
  | cons entry entries ih =>
    exact ih (fun s hs e he => hevent s hs e (List.mem_cons_of_mem _ he))
      (hevent s h entry List.mem_cons_self)

/-- Scheduling writes the events and the serial number only. -/
theorem Simulation.schedule_eq : ∀ (entries : List (T × Action T κ)) (s : Simulation T κ),
    s.schedule entries =
      { s with serial := (s.schedule entries).serial, events := (s.schedule entries).events }
  | [], _ => rfl
  | entry :: entries, s => Simulation.schedule_eq entries (s.event entry.1 entry.2)

theorem Simulation.mem_schedule {e : Event T κ} : ∀ {entries : List (T × Action T κ)}
    {s : Simulation T κ}, e ∈ (s.schedule entries).events →
      e ∈ s.events ∨ ∃ entry ∈ entries, e.time = entry.1 ∧ e.action = entry.2
  | [], _, h => Or.inl h
  | entry :: entries, s, h => by
    have hrest : e ∈ ((s.event entry.1 entry.2).schedule entries).events := h
    rcases Simulation.mem_schedule hrest with h | ⟨entry', hmem, h⟩
    · rcases mem_push.1 h with rfl | h
      · exact Or.inr ⟨entry, List.mem_cons_self, rfl, rfl⟩
      · exact Or.inl h
    · exact Or.inr ⟨entry', List.mem_cons_of_mem _ hmem, h⟩

variable [Add T] [Sub T] [Mul T] [NatCast T] [DecidableEq κ]

/-- The wake-up `schedule_wakeup` asks for, if any. -/
def wakes (S : Setup T κ) (s : Simulation T κ) (intent : Intent T κ) : List (T × Action T κ) :=
  if S.policy = .futureTiming ∧ intent.active = true then
    let missing := intent.keys.length - cachedPrefix s.cache intent.keys
    let time := max (max s.now intent.eligibleAt)
      (intent.readyAt - (missing : Nat) * S.workload.prefillBlockMs)
    if s.now < time ∧ time < intent.readyAt then [(time, .wake)] else []
  else []

omit [Add T] in
theorem scheduleWakeup_eq (S : Setup T κ) (s : Simulation T κ) (intent : Intent T κ) :
    s.scheduleWakeup S intent = s.schedule (wakes S s intent) := by
  unfold Simulation.scheduleWakeup wakes
  split
  · dsimp only
    split <;> rfl
  · rfl

omit [Add T] in
/-- A wake-up lies in the future, before the intent is ready. -/
theorem mem_wakes {S : Setup T κ} {s : Simulation T κ} {intent : Intent T κ}
    {entry : T × Action T κ} (h : entry ∈ wakes S s intent) :
    entry.2 = .wake ∧ s.now < entry.1 ∧ entry.1 < intent.readyAt := by
  unfold wakes at h
  split at h
  · dsimp only at h
    split at h
    · rename_i htime
      rw [List.mem_singleton.1 h]
      exact ⟨rfl, htime⟩
    · cases h
  · cases h

omit [Add T] in
theorem wakes_schedule (S : Setup T κ) (s : Simulation T κ) (entries : List (T × Action T κ))
    (intent : Intent T κ) : wakes S (s.schedule entries) intent = wakes S s intent := by
  rw [Simulation.schedule_eq]
  rfl

omit [Sub T] [Mul T] [NatCast T] [DecidableEq κ] in
theorem scheduleUpdates_eq (ident : String) (index : Nat) : ∀ (updates : List (Update T))
    (s : Simulation T κ), s.scheduleUpdates ident index updates =
      s.schedule (updates.map fun update => (s.now + update.atMs, .update ident index update))
  | [], _ => rfl
  | update :: updates, s =>
    scheduleUpdates_eq ident index updates (s.event (s.now + update.atMs) (.update ident index update))

/-! ## Turns -/

/-- What a turn schedules. -/
def turnEvents (s : Simulation T κ) (ident : String) (index : Nat) (turn : Turn T) :
    List (T × Action T κ) :=
  (s.now + turn.waitMs, .ready ident index) ::
    turn.updates.map fun update => (s.now + update.atMs, .update ident index update)

/-- The ways through `start_turn`. -/
inductive Turned (S : Setup T κ) (s : Simulation T κ) (ident : String) (index : Nat) :
    Simulation T κ → Prop
  | dead {state : WorkflowState T} (hstate : s.states.get? ident = some state)
      (hstatus : state.status ≠ .running) : Turned S s ident index s
  | first {state : WorkflowState T} {turn : Turn T} (hstate : s.states.get? ident = some state)
      (hstatus : state.status = .running) (hturn : state.workflow.turns[index]? = some turn)
      (hindex : index = 0) :
      Turned S s ident index (s.schedule [(s.now + turn.waitMs, .ready ident index)])
  | wait {state : WorkflowState T} {turn : Turn T} (hstate : s.states.get? ident = some state)
      (hstatus : state.status = .running) (hturn : state.workflow.turns[index]? = some turn)
      (hindex : index ≠ 0) : Turned S s ident index
        (({ s with intents := s.intents.insert ident (s.newIntent S index turn) } :
          Simulation T κ).schedule (turnEvents s ident index turn ++
            wakes S s (s.newIntent S index turn)))

theorem startTurn_turned {S : Setup T κ} {s s' : Simulation T κ} {ident : String} {index : Nat}
    (h : s.startTurn S ident index = some s') : Turned S s ident index s' := by
  unfold Simulation.startTurn at h
  obtain ⟨state, hstate, h⟩ := Option.bind_eq_some_iff.1 h
  split at h
  · rename_i hstatus
    cases h
    exact .dead hstate hstatus
  · rename_i hstatus
    rw [ne_eq, Classical.not_not] at hstatus
    obtain ⟨turn, hturn, h⟩ := Option.bind_eq_some_iff.1 h
    dsimp only at h
    split at h
    · rename_i hindex
      cases h
      exact .first hstate hstatus hturn hindex
    · rename_i hindex
      cases h
      have hwait := Turned.wait (S := S) hstate hstatus hturn hindex
      rw [Simulation.schedule_append] at hwait
      rw [scheduleUpdates_eq, scheduleWakeup_eq, wakes_schedule]
      exact hwait

/-! ## Handlers -/

/-- Whether a finished preparation was of use to nobody. -/
def isObsolete (state : WorkflowState T) (current : Intent T κ) (revision : Nat) : Bool :=
  decide (state.status = .cancelled ∨ state.status = .timeout ∨ current.revision ≠ revision)

/-- The state behind a finished preparation. -/
def prepared (s : Simulation T κ) (state : WorkflowState T) (current : Intent T κ)
    (workflow : String) (revision : Nat) (computed : List κ) : Simulation T κ :=
  { s with
    busy := false
    history := .finished (.speculative workflow revision computed) :: s.history
    stats := { s.stats with
      obsoleteBlocksCompleted := s.stats.obsoleteBlocksCompleted +
        if isObsolete state current revision then computed.length else 0
      lateBlocksCompleted :=
        s.stats.lateBlocksCompleted + if current.readyAt < s.now then computed.length else 0 }
    cache := markAll .speculative computed s.cache
    trace := s.trace ++
      [(s.now, .preparationFinished workflow computed.length (isObsolete state current revision))] }

/-- The state behind a finished request, before the next turn starts. -/
def recorded (s : Simulation T κ) (state : WorkflowState T) (workflow : String) (index : Nat)
    (keys : List κ) (ready : T) (cached : Nat) : Simulation T κ :=
  { s with
    busy := false
    history := .finished (.demand workflow index keys ready cached) :: s.history
    cache := markAll .ordinary keys s.cache
    states := s.states.insert workflow (state.record s.now index ready cached)
    trace := s.trace ++ [(s.now, .requestFinished workflow index)] }

/-- The ways through `handle`. -/
inductive Handled (S : Setup T κ) (s : Simulation T κ) : Action T κ → Simulation T κ → Prop
  | wake : Handled S s .wake s
  | arrival {ident : String} {s' : Simulation T κ} (hturned : Turned S s ident 0 s') :
      Handled S s (.arrival ident) s'
  | deadlineDead {ident : String} {state : WorkflowState T}
      (hstate : s.states.get? ident = some state) (hstatus : state.status ≠ .running) :
      Handled S s (.deadline ident) s
  | deadline {ident : String} {state : WorkflowState T}
      (hstate : s.states.get? ident = some state) (hstatus : state.status = .running) :
      Handled S s (.deadline ident)
        (((s.setStatus ident state .timeout).deactivate ident).log (.deadline ident))
  | readyDead {ident : String} {index : Nat} {state : WorkflowState T}
      (hstate : s.states.get? ident = some state) (hstatus : state.status ≠ .running) :
      Handled S s (.ready ident index) s
  | ready {ident : String} {index : Nat} {state : WorkflowState T}
      (hstate : s.states.get? ident = some state) (hstatus : state.status = .running) :
      Handled S s (.ready ident index)
        (({ s with
          intents := (s.deactivate ident).intents
          queue := s.queue ++ [⟨ident, index, s.now⟩] } : Simulation T κ).log
            (.requestReady ident index))
  | updateStale {ident : String} {index : Nat} {update : Update T}
      (hstale : ∀ intent, s.intents.get? ident = some intent → intent.index = index →
        ∃ state, s.states.get? ident = some state ∧ state.status ≠ .running) :
      Handled S s (.update ident index update) s
  | cancelled {ident : String} {update : Update T} {intent : Intent T κ} {state : WorkflowState T}
      (hintent : s.intents.get? ident = some intent) (hstate : s.states.get? ident = some state)
      (hstatus : state.status = .running) (hchange : update.change = .cancel) :
      Handled S s (.update ident intent.index update)
        ((({ s with intents := s.intents.insert ident { intent with
          revision := intent.revision + 1, active := false } } : Simulation T κ).setStatus ident state
            .cancelled).log (.cancel ident))
  | revised {ident : String} {update : Update T} {intent : Intent T κ} {state : WorkflowState T}
      {blocks : List String} (hintent : s.intents.get? ident = some intent)
      (hstate : s.states.get? ident = some state) (hstatus : state.status = .running)
      (hchange : update.change = .prefixBlocks blocks) :
      Handled S s (.update ident intent.index update)
        ((({ s with intents := s.intents.insert ident { intent with
          revision := intent.revision + 1, keys := S.digest.blockKeys blocks } } :
            Simulation T κ).log (.revision ident (intent.revision + 1))).schedule
              (wakes S s { intent with
                revision := intent.revision + 1, keys := S.digest.blockKeys blocks }))
  | prepared {workflow : String} {revision : Nat} {computed : List κ} {current : Intent T κ}
      {state : WorkflowState T} (hintent : s.intents.get? workflow = some current)
      (hstate : s.states.get? workflow = some state) :
      Handled S s (.finished (.speculative workflow revision computed))
        (prepared s state current workflow revision computed)
  | requestDead {workflow : String} {index : Nat} {keys : List κ} {ready : T} {cached : Nat}
      {state : WorkflowState T} (hstate : s.states.get? workflow = some state)
      (hstatus : state.status ≠ .running) :
      Handled S s (.finished (.demand workflow index keys ready cached))
        (recorded s state workflow index keys ready cached)
  | requestLast {workflow : String} {index : Nat} {keys : List κ} {ready : T} {cached : Nat}
      {state : WorkflowState T} (hstate : s.states.get? workflow = some state)
      (hstatus : state.status = .running) (hlast : index + 1 = state.workflow.turns.length) :
      Handled S s (.finished (.demand workflow index keys ready cached))
        { recorded s state workflow index keys ready cached with
          states := (recorded s state workflow index keys ready cached).states.insert workflow
            { state.record s.now index ready cached with
              status := .completed, completionMs := some (s.now - state.workflow.arrivalMs) } }
  | requestNext {workflow : String} {index : Nat} {keys : List κ} {ready : T} {cached : Nat}
      {state : WorkflowState T} {s' : Simulation T κ}
      (hstate : s.states.get? workflow = some state) (hstatus : state.status = .running)
      (hmore : index + 1 ≠ state.workflow.turns.length)
      (hturned : Turned S (recorded s state workflow index keys ready cached) workflow (index + 1)
        s') :
      Handled S s (.finished (.demand workflow index keys ready cached)) s'

omit [Add T] in
theorem handleUpdate_handled {S : Setup T κ} {s s' : Simulation T κ} {ident : String} {index : Nat}
    {update : Update T} (h : s.handleUpdate S ident index update = some s') :
    s' = s ∧ (∀ intent, s.intents.get? ident = some intent → intent.index = index →
        ∃ state, s.states.get? ident = some state ∧ state.status ≠ .running) ∨
      ∃ intent state, s.intents.get? ident = some intent ∧ intent.index = index ∧
        s.states.get? ident = some state ∧ state.status = .running ∧
        (update.change = .cancel ∧ s' = (({ s with intents := s.intents.insert ident { intent with
            revision := intent.revision + 1, active := false } } : Simulation T κ).setStatus ident
              state .cancelled).log (.cancel ident) ∨
          ∃ blocks, update.change = .prefixBlocks blocks ∧
            s' = (({ s with intents := s.intents.insert ident { intent with
              revision := intent.revision + 1, keys := S.digest.blockKeys blocks } } :
                Simulation T κ).log (.revision ident (intent.revision + 1))).schedule
                  (wakes S s { intent with
                    revision := intent.revision + 1, keys := S.digest.blockKeys blocks })) := by
  unfold Simulation.handleUpdate at h
  split at h
  · rename_i hnone
    cases h
    refine Or.inl ⟨rfl, fun intent hintent => ?_⟩
    rw [hnone] at hintent
    cases hintent
  · rename_i intent hintent
    split at h
    · rename_i hindex
      cases h
      refine Or.inl ⟨rfl, fun intent' hintent' hindex' => ?_⟩
      rw [hintent] at hintent'
      cases hintent'
      exact absurd hindex' hindex
    · rename_i hindex
      rw [ne_eq, Classical.not_not] at hindex
      obtain ⟨state, hstate, h⟩ := Option.bind_eq_some_iff.1 h
      split at h
      · rename_i hstatus
        cases h
        exact Or.inl ⟨rfl, fun _ _ _ => ⟨state, hstate, hstatus⟩⟩
      · rename_i hstatus
        rw [ne_eq, Classical.not_not] at hstatus
        refine Or.inr ⟨intent, state, hintent, hindex, hstate, hstatus, ?_⟩
        cases hchange : update.change with
        | cancel =>
          rw [hchange] at h
          cases h
          exact Or.inl ⟨rfl, rfl⟩
        | prefixBlocks blocks =>
          rw [hchange] at h
          cases h
          rw [scheduleWakeup_eq]
          exact Or.inr ⟨blocks, rfl, rfl⟩

theorem finishRequest_handled {S : Setup T κ} {s s' : Simulation T κ} {workflow : String}
    {index : Nat} {keys : List κ} {ready : T} {cached : Nat}
    (h : s.handle S (.finished (.demand workflow index keys ready cached)) = some s') :
    Handled S s (.finished (.demand workflow index keys ready cached)) s' := by
  obtain ⟨state, hstate, h⟩ := Option.bind_eq_some_iff.1 h
  dsimp only at h
  split at h
  · rename_i hstatus
    cases h
    exact .requestDead hstate hstatus
  · rename_i hstatus
    have hrunning : state.status = .running := Classical.not_not.1 hstatus
    split at h
    · rename_i hlast
      cases h
      exact .requestLast hstate hrunning hlast
    · rename_i hmore
      exact .requestNext hstate hrunning hmore (startTurn_turned h)

omit [LinearOrder T] [Add T] [Sub T] [Mul T] [NatCast T] [DecidableEq κ] in
theorem deactivate_eq (s : Simulation T κ) (ident : String) :
    s.deactivate ident = { s with intents := (s.deactivate ident).intents } := by
  unfold Simulation.deactivate
  split <;> rfl

/-- **The code of `handle` takes one of its ways.** -/
theorem handle_handled {S : Setup T κ} {s s' : Simulation T κ} : ∀ {action : Action T κ},
    s.handle S action = some s' → Handled S s action s'
  | .wake, h => by
    cases h
    exact .wake
  | .arrival ident, h => .arrival (startTurn_turned h)
  | .deadline ident, h => by
    obtain ⟨state, hstate, h⟩ := Option.bind_eq_some_iff.1 h
    split at h
    · rename_i hstatus
      cases h
      exact .deadline hstate hstatus
    · rename_i hstatus
      cases h
      exact .deadlineDead hstate hstatus
  | .ready ident index, h => by
    obtain ⟨state, hstate, h⟩ := Option.bind_eq_some_iff.1 h
    split at h
    · rename_i hstatus
      cases h
      rw [deactivate_eq]
      exact .ready hstate hstatus
    · rename_i hstatus
      cases h
      exact .readyDead hstate hstatus
  | .update ident index update, h => by
    rcases handleUpdate_handled h with ⟨rfl, hstale⟩ | ⟨intent, state, hintent, rfl, hstate,
      hstatus, ⟨hchange, rfl⟩ | ⟨blocks, hchange, rfl⟩⟩
    · exact .updateStale hstale
    · exact .cancelled hintent hstate hstatus hchange
    · exact .revised hintent hstate hstatus hchange
  | .finished (.speculative workflow revision computed), h => by
    obtain ⟨current, hintent, h⟩ := Option.bind_eq_some_iff.1 h
    obtain ⟨state, hstate, h⟩ := Option.bind_eq_some_iff.1 h
    cases h
    exact .prepared hintent hstate
  | .finished (.demand workflow index keys ready cached), h => finishRequest_handled h

/-! ## Dispatch -/

def Simulation.Running (s : Simulation T κ) (ident : String) : Prop :=
  ∃ state, s.states.get? ident = some state ∧ state.status = .running

def Simulation.Dead (s : Simulation T κ) (ident : String) : Prop :=
  ∃ state, s.states.get? ident = some state ∧ state.status ≠ .running

def isSpeculative (_ : κ) (mark : Mark) : Bool := mark = .speculative

/-- How the cached blocks of a prompt are counted. -/
def Stats.credit (stats : Stats T) (useful ordinary : Nat) : Stats T :=
  { stats with
    usefulSpeculativeBlocks := stats.usefulSpeculativeBlocks + useful
    ordinaryCachedBlocks := stats.ordinaryCachedBlocks + ordinary }

def promptKeys (S : Setup T κ) (turn : Turn T) : List κ := S.digest.blockKeys turn.promptBlocks

def requestKeys (S : Setup T κ) (turn : Turn T) : List κ :=
  S.digest.blockKeys (turn.promptBlocks ++ turn.generatedBlocks)

/-- The number of blocks of a prompt that need not be computed. -/
def creditedBlocks (S : Setup T κ) (s : Simulation T κ) (turn : Turn T) : Nat :=
  cachedPrefix s.cache (promptKeys S turn)

def requestCost (S : Setup T κ) (s : Simulation T κ) (turn : Turn T) : T :=
  ((promptKeys S turn).length - creditedBlocks S s turn : Nat) * S.workload.prefillBlockMs +
    turn.decodeMs

/-- The cache after the credited blocks of a prompt are marked. -/
def creditedCache (S : Setup T κ) (s : Simulation T κ) (turn : Turn T) : FinMap κ Mark :=
  markAll .ordinary ((promptKeys S turn).take (creditedBlocks S s turn)) s.cache

/-- The state behind the start of a request. -/
def requestStarted (S : Setup T κ) (s : Simulation T κ) (rest : List (Request T))
    (request : Request T) (turn : Turn T) (useful : Nat) (victims : List κ)
    (cache : FinMap κ Mark) : Simulation T κ :=
  ({ s with
    queue := rest
    cache := cache
    stats := { s.stats.credit useful (creditedBlocks S s turn - useful) with
      peakCacheBlocks := max s.stats.peakCacheBlocks cache.size
      demandComputeMs := s.stats.demandComputeMs + requestCost S s turn }
    history := victims.reverse.map (.evicted · (requestKeys S turn)) ++ s.history
    busy := true
    trace := s.trace ++ [(s.now, .requestStarted request.workflow request.index
      (requestCost S s turn) (creditedBlocks S s turn))] } : Simulation T κ).event
    (s.now + requestCost S s turn) (.finished (.demand request.workflow request.index
      (requestKeys S turn) request.ready (creditedBlocks S s turn)))

/-- The number of blocks the next preparation of an intent computes. -/
def chunk (S : Setup T κ) (s : Simulation T κ) (intent : Intent T κ) : Nat :=
  min (min (intent.keys.length - cachedPrefix s.cache intent.keys)
    (S.workload.speculativeBlockBudget - s.stats.speculativeBlocksComputed))
    S.workload.speculativeChunkBlocks

def preparationTarget (S : Setup T κ) (s : Simulation T κ) (intent : Intent T κ) : List κ :=
  intent.keys.take (cachedPrefix s.cache intent.keys + chunk S s intent)

/-- The state behind the start of a preparation. -/
def preparationStarted (S : Setup T κ) (s : Simulation T κ) (ident : String) (intent : Intent T κ)
    (victims : List κ) (cache : FinMap κ Mark) : Simulation T κ :=
  ({ s with
    cache := cache
    stats := { s.stats with
      peakCacheBlocks := max s.stats.peakCacheBlocks cache.size
      speculativeBlocksComputed := s.stats.speculativeBlocksComputed + chunk S s intent
      speculativeComputeMs :=
        s.stats.speculativeComputeMs + (chunk S s intent : Nat) * S.workload.prefillBlockMs }
    history := victims.reverse.map (.evicted · (preparationTarget S s intent)) ++ s.history
    busy := true
    trace := s.trace ++
      [(s.now, .preparationStarted ident intent.revision (chunk S s intent))] } :
    Simulation T κ).event (s.now + (chunk S s intent : Nat) * S.workload.prefillBlockMs)
    (.finished (.speculative ident intent.revision
      ((preparationTarget S s intent).drop (cachedPrefix s.cache intent.keys))))

/-- An intent that may be prepared now. -/
structure Preparable (S : Setup T κ) (s : Simulation T κ) (ident : String) (intent : Intent T κ) :
    Prop where
  policy : S.policy ≠ .off
  budget : s.stats.speculativeBlocksComputed < S.workload.speculativeBlockBudget
  entry : s.intents.get? ident = some intent
  active : intent.active = true
  running : s.Running ident
  missing : cachedPrefix s.cache intent.keys ≠ intent.keys.length
  timely : S.policy = .futureTiming → intent.willCancel = false ∧ intent.eligibleAt ≤ s.now ∧
    intent.readyAt - (intent.keys.length - cachedPrefix s.cache intent.keys : Nat) *
      S.workload.prefillBlockMs ≤ s.now

/-- The queue is empty, and the intents that were passed over asked for wake-ups. -/
def searched (S : Setup T κ) (s : Simulation T κ) (skipped : List (String × Intent T κ)) :
    Simulation T κ :=
  ({ s with queue := [] } : Simulation T κ).schedule (skipped.flatMap fun e => wakes S s e.2)

/-- The ways through `dispatch`. -/
inductive Dispatched (S : Setup T κ) (s : Simulation T κ) : Simulation T κ → Prop
  | busy (hbusy : s.busy = true) : Dispatched S s s
  | request {dead rest : List (Request T)} {request : Request T} {state : WorkflowState T}
      {turn : Turn T} {useful : Nat} {victims : List κ} {cache : FinMap κ Mark}
      (hidle : s.busy = false) (hqueue : s.queue = dead ++ request :: rest)
      (hdead : ∀ r ∈ dead, s.Dead r.workflow)
      (hstate : s.states.get? request.workflow = some state) (hstatus : state.status = .running)
      (hturn : state.workflow.turns[request.index]? = some turn)
      (huseful : useful ≤ creditedBlocks S s turn)
      (hcredit : (creditedCache S s turn).count isSpeculative + useful =
        s.cache.count isSpeculative)
      (hload : Lru.load S.workload.cacheBlocks .pending (requestKeys S turn)
        (creditedCache S s turn) = some (victims, cache)) :
      Dispatched S s (requestStarted S s rest request turn useful victims cache)
  | idle {skipped : List (String × Intent T κ)} (hidle : s.busy = false)
      (hdead : ∀ r ∈ s.queue, s.Dead r.workflow) (hskipped : skipped.Sublist s.intents.entries) :
      Dispatched S s (searched S s skipped)
  | preparation {skipped : List (String × Intent T κ)} {ident : String} {intent : Intent T κ}
      {victims : List κ} {cache : FinMap κ Mark} (hidle : s.busy = false)
      (hdead : ∀ r ∈ s.queue, s.Dead r.workflow) (hskipped : skipped.Sublist s.intents.entries)
      (hpreparable : Preparable S s ident intent)
      (hload : Lru.load S.workload.cacheBlocks .pending (preparationTarget S s intent) s.cache =
        some (victims, cache)) :
      Dispatched S s (preparationStarted S (searched S s skipped) ident intent victims cache)

omit [LinearOrder T] [Add T] [Sub T] [Mul T] [NatCast T] [DecidableEq κ] in
theorem popRunning_eq_some {s : Simulation T κ} {request : Option (Request T)}
    {rest : List (Request T)} : ∀ {queue : List (Request T)},
    s.popRunning queue = some (request, rest) →
      (request = none ∧ rest = [] ∧ ∀ r ∈ queue, s.Dead r.workflow) ∨
        ∃ dead r, request = some r ∧ queue = dead ++ r :: rest ∧ (∀ d ∈ dead, s.Dead d.workflow) ∧
          s.Running r.workflow
  | [], h => by
    cases h
    exact Or.inl ⟨rfl, rfl, fun _ hr => by cases hr⟩
  | r :: queue, h => by
    obtain ⟨state, hstate, h⟩ := Option.bind_eq_some_iff.1 h
    split at h
    · rename_i hstatus
      rcases popRunning_eq_some h with ⟨hnone, hrest, hdead⟩ | ⟨dead, r', hr', hqueue, hdead, hrun⟩
      · exact Or.inl ⟨hnone, hrest, List.forall_mem_cons.2 ⟨⟨state, hstate, hstatus⟩, hdead⟩⟩
      · refine Or.inr ⟨r :: dead, r', hr', by rw [hqueue]; rfl, ?_, hrun⟩
        exact List.forall_mem_cons.2 ⟨⟨state, hstate, hstatus⟩, hdead⟩
    · rename_i hstatus
      cases h
      refine Or.inr ⟨[], r, rfl, rfl, fun d hd => ?_, state, hstate, Classical.not_not.1 hstatus⟩
      cases hd

omit [LinearOrder T] [Add T] [Sub T] [Mul T] [NatCast T] [DecidableEq κ] in
theorem Stats.credit_credit (stats : Stats T) (a b c d : Nat) :
    (stats.credit a b).credit c d = stats.credit (a + c) (b + d) := by
  simp only [Stats.credit, Nat.add_assoc]

omit [LinearOrder T] [Add T] [Sub T] [Mul T] [NatCast T] in
/-- One credited block: it is useful where it was marked as prepared. -/
theorem credit_eq {s : Simulation T κ} {key : κ} {mark : Mark}
    (hmark : s.cache.get? key = some mark) : ∃ useful, useful ≤ 1 ∧
      (s.cache.insert key .ordinary).count isSpeculative + useful = s.cache.count isSpeculative ∧
      s.credit key = { s with
        stats := s.stats.credit useful (1 - useful)
        cache := s.cache.insert key .ordinary } := by
  have hcount : (s.cache.insert key .ordinary).count isSpeculative +
      (if isSpeculative key mark then 1 else 0) = s.cache.count isSpeculative + 0 :=
    FinMap.count_insert_of_some hmark
  unfold Simulation.credit
  rw [hmark]
  by_cases hspec : mark = .speculative
  · subst hspec
    exact ⟨1, Nat.le_refl 1, hcount, rfl⟩
  · have hfalse : isSpeculative key mark = false := decide_eq_false hspec
    rw [hfalse] at hcount
    rw [if_neg fun heq => hspec (Option.some.inj heq)]
    exact ⟨0, Nat.zero_le 1, hcount, rfl⟩

omit [LinearOrder T] [Add T] [Sub T] [Mul T] [NatCast T] in
/-- Every credited block is counted once, as useful where it was prepared. -/
theorem foldl_credit_eq : ∀ (keys : List κ) (s : Simulation T κ),
    (∀ key ∈ keys, (s.cache.get? key).isSome) → ∃ useful, useful ≤ keys.length ∧
      (markAll .ordinary keys s.cache).count isSpeculative + useful =
        s.cache.count isSpeculative ∧
      keys.foldl Simulation.credit s =
        { s with
          stats := s.stats.credit useful (keys.length - useful)
          cache := markAll .ordinary keys s.cache }
  | [], s, _ => ⟨0, Nat.le_refl 0, rfl, rfl⟩
  | key :: keys, s, h => by
    obtain ⟨mark, hmark⟩ := Option.isSome_iff_exists.1 (h key List.mem_cons_self)
    obtain ⟨one, hone, hcount, hcredit⟩ := credit_eq hmark
    have hrest : ∀ a ∈ keys, ((s.cache.insert key .ordinary).get? a).isSome := fun a ha => by
      rw [FinMap.get?_insert]
      split
      · rfl
      · exact h a (List.mem_cons_of_mem _ ha)
    obtain ⟨useful, hle, hcount', hfold⟩ := foldl_credit_eq keys { s with
      stats := s.stats.credit one (1 - one)
      cache := s.cache.insert key .ordinary } hrest
    refine ⟨one + useful, by rw [List.length_cons]; omega, ?_, ?_⟩
    · dsimp only at hcount'
      rw [markAll, List.foldl_cons, ← markAll]
      omega
    · have hsplit : 1 - one + (keys.length - useful) = (key :: keys).length - (one + useful) := by
        rw [List.length_cons]
        omega
      rw [List.foldl_cons, hcredit, hfold]
      simp only [Stats.credit_credit, hsplit]
      rfl

omit [LinearOrder T] [Add T] [Sub T] [Mul T] [NatCast T] in
theorem reserve_eq_some {S : Setup T κ} {s s' : Simulation T κ} {keys : List κ}
    (h : s.reserve S keys = some s') : ∃ victims cache,
      Lru.load S.workload.cacheBlocks .pending keys s.cache = some (victims, cache) ∧
      s' = { s with
        cache := cache
        stats := { s.stats with peakCacheBlocks := max s.stats.peakCacheBlocks cache.size }
        history := victims.reverse.map (.evicted · keys) ++ s.history } := by
  obtain ⟨⟨victims, cache⟩, hload, rfl⟩ := Option.map_eq_some_iff.1 h
  exact ⟨victims, cache, hload, rfl⟩

omit [Sub T] in
theorem startRequest_started {S : Setup T κ} {s s' : Simulation T κ} {rest : List (Request T)}
    {request : Request T}
    (h : ({ s with queue := rest } : Simulation T κ).startRequest S request = some s') :
    ∃ state turn useful victims cache, s.states.get? request.workflow = some state ∧
      state.workflow.turns[request.index]? = some turn ∧ useful ≤ creditedBlocks S s turn ∧
      (creditedCache S s turn).count isSpeculative + useful = s.cache.count isSpeculative ∧
      Lru.load S.workload.cacheBlocks .pending (requestKeys S turn) (creditedCache S s turn) =
        some (victims, cache) ∧
      s' = requestStarted S s rest request turn useful victims cache := by
  obtain ⟨state, hstate, h⟩ := Option.bind_eq_some_iff.1 h
  obtain ⟨turn, hturn, h⟩ := Option.bind_eq_some_iff.1 h
  have hlength : ((promptKeys S turn).take (creditedBlocks S s turn)).length =
      creditedBlocks S s turn := List.length_take_of_le (cachedPrefix_le _ _)
  obtain ⟨useful, hle, hcount, hfold⟩ := foldl_credit_eq
    ((promptKeys S turn).take (creditedBlocks S s turn)) { s with queue := rest } fun key hkey => by
      obtain ⟨mark, hmark, -⟩ := cached_of_mem_take hkey
      exact Option.isSome_iff_exists.2 ⟨mark, hmark⟩
  rw [hlength] at hle hfold
  obtain ⟨s₁, hreserve, h⟩ := Option.bind_eq_some_iff.1 h
  change (List.foldl Simulation.credit { s with queue := rest }
    ((promptKeys S turn).take (creditedBlocks S s turn))).reserve S (requestKeys S turn) =
      some s₁ at hreserve
  rw [hfold] at hreserve
  obtain ⟨victims, cache, hload, rfl⟩ := reserve_eq_some hreserve
  cases h
  exact ⟨state, turn, useful, victims, cache, hstate, hturn, hle, hcount, hload, rfl⟩

omit [Sub T] in
theorem startPreparation_started {S : Setup T κ} {s s' : Simulation T κ} {ident : String}
    {intent : Intent T κ} (h : s.startPreparation S ident intent (cachedPrefix s.cache intent.keys)
      (chunk S s intent) = some s') :
    ∃ victims cache,
      Lru.load S.workload.cacheBlocks .pending (preparationTarget S s intent) s.cache =
        some (victims, cache) ∧ s' = preparationStarted S s ident intent victims cache := by
  obtain ⟨s₁, hreserve, h⟩ := Option.bind_eq_some_iff.1 h
  obtain ⟨victims, cache, hload, rfl⟩ := reserve_eq_some hreserve
  cases h
  exact ⟨victims, cache, hload, rfl⟩

/-- The ways through the loop over the intents. -/
inductive Searched (S : Setup T κ) (s : Simulation T κ) (intents : List (String × Intent T κ)) :
    Simulation T κ → Prop
  | none {skipped : List (String × Intent T κ)} (hskipped : skipped.Sublist intents) :
      Searched S s intents (s.schedule (skipped.flatMap fun e => wakes S s e.2))
  | found {skipped : List (String × Intent T κ)} {ident : String} {intent : Intent T κ}
      {victims : List κ} {cache : FinMap κ Mark} (hskipped : skipped.Sublist intents)
      (hpreparable : Preparable S s ident intent)
      (hload : Lru.load S.workload.cacheBlocks .pending (preparationTarget S s intent) s.cache =
        some (victims, cache)) :
      Searched S s intents (preparationStarted S
        (s.schedule (skipped.flatMap fun e => wakes S s e.2)) ident intent victims cache)

theorem Searched.skip {S : Setup T κ} {s s' : Simulation T κ} {entry : String × Intent T κ}
    {intents : List (String × Intent T κ)} (h : Searched S s intents s') :
    Searched S s (entry :: intents) s' := by
  cases h with
  | none hskipped => exact .none (hskipped.cons entry)
  | found hskipped hpreparable hload => exact .found (hskipped.cons entry) hpreparable hload

/-- The wake-ups of an intent that is passed over are asked for first. -/
theorem Searched.wake {S : Setup T κ} {s s' : Simulation T κ} {entry : String × Intent T κ}
    {intents : List (String × Intent T κ)}
    (h : Searched S (s.schedule (wakes S s entry.2)) intents s') :
    Searched S s (entry :: intents) s' := by
  have hwakes : ∀ e : String × Intent T κ,
      wakes S (s.schedule (wakes S s entry.2)) e.2 = wakes S s e.2 := fun e =>
    wakes_schedule S s _ e.2
  have hcons : ∀ skipped : List (String × Intent T κ),
      (s.schedule (wakes S s entry.2)).schedule
        (skipped.flatMap fun e => wakes S (s.schedule (wakes S s entry.2)) e.2) =
      s.schedule ((entry :: skipped).flatMap fun e => wakes S s e.2) := fun skipped => by
    rw [List.flatMap_cons, Simulation.schedule_append]
    simp only [hwakes]
  cases h with
  | none hskipped =>
    rw [hcons]
    exact .none (hskipped.cons_cons entry)
  | found hskipped hpreparable hload =>
    rw [hcons]
    rw [Simulation.schedule_eq] at hpreparable hload
    exact .found (hskipped.cons_cons entry) ⟨hpreparable.policy, hpreparable.budget, hpreparable.entry,
      hpreparable.active, hpreparable.running, hpreparable.missing, hpreparable.timely⟩ hload

theorem prepare_searched {S : Setup T κ} {s' : Simulation T κ} (hpolicy : S.policy ≠ .off) :
    ∀ {intents : List (String × Intent T κ)} {s : Simulation T κ},
      (∀ entry ∈ intents, s.intents.get? entry.1 = some entry.2) →
      s.stats.speculativeBlocksComputed < S.workload.speculativeBlockBudget →
      Simulation.prepare S (S.workload.speculativeBlockBudget - s.stats.speculativeBlocksComputed)
        intents s = some s' → Searched S s intents s'
  | [], s, _, _, h => by
    cases h
    exact .none .slnil
  | (ident, intent) :: rest, s, hentries, hbudget, h => by
    rw [List.forall_mem_cons] at hentries
    unfold Simulation.prepare at h
    split at h
    · exact (prepare_searched hpolicy hentries.2 hbudget h).skip
    · rename_i hactive
      obtain ⟨state, hstate, h⟩ := Option.bind_eq_some_iff.1 h
      dsimp only at h
      split at h
      · exact (prepare_searched hpolicy hentries.2 hbudget h).skip
      · rename_i hmissing
        rw [not_or, ne_eq, Classical.not_not] at hmissing
        split at h
        · exact (prepare_searched hpolicy hentries.2 hbudget h).skip
        · rename_i heligible
          split at h
          · rw [scheduleWakeup_eq] at h
            have hsame := Simulation.schedule_eq (wakes S s intent) s
            refine Searched.wake (prepare_searched hpolicy ?_ ?_ ?_)
            · rw [hsame]
              exact hentries.2
            · rw [hsame]
              exact hbudget
            · rw [show (s.schedule (wakes S s (ident, intent).2)).stats = s.stats by rw [hsame]]
              exact h
          · rename_i hbegin
            obtain ⟨victims, cache, hload, rfl⟩ := startPreparation_started h
            rw [not_and, not_or] at heligible
            rw [not_and] at hbegin
            exact .found (List.nil_sublist _) ⟨hpolicy, hbudget, hentries.1,
              eq_true_of_ne_false hactive, ⟨state, hstate, hmissing.1⟩, hmissing.2, fun hfuture =>
                ⟨eq_false_of_ne_true (heligible hfuture).1, not_lt.1 (heligible hfuture).2,
                  not_lt.1 (hbegin hfuture)⟩⟩ hload

/-- **The code of `dispatch` takes one of its ways.** -/
theorem dispatch_dispatched {S : Setup T κ} {s s' : Simulation T κ}
    (h : s.dispatch S = some s') : Dispatched S s s' := by
  unfold Simulation.dispatch at h
  split at h
  · rename_i hbusy
    cases h
    exact .busy hbusy
  · rename_i hbusy
    have hidle := eq_false_of_ne_true hbusy
    obtain ⟨⟨request, rest⟩, hpop, h⟩ := Option.bind_eq_some_iff.1 h
    rcases popRunning_eq_some hpop with ⟨rfl, rfl, hdead⟩ | ⟨dead, r, rfl, hqueue, hdead, hrun⟩
    · dsimp only at h
      split at h
      · cases h
        exact .idle hidle hdead (List.nil_sublist _)
      · rename_i hsearch
        rw [not_or] at hsearch
        have hentries : ∀ entry ∈ s.intents.entries, s.intents.get? entry.1 = some entry.2 :=
          fun entry hentry => FinMap.mem_entries.1 hentry
        have hbudget : s.stats.speculativeBlocksComputed < S.workload.speculativeBlockBudget :=
          Nat.lt_of_sub_ne_zero hsearch.2
        have hsearched := prepare_searched (s := { s with queue := [] }) hsearch.1 hentries hbudget h
        cases hsearched with
        | none hskipped => exact .idle hidle hdead hskipped
        | found hskipped hpreparable hload =>
          exact .preparation hidle hdead hskipped ⟨hpreparable.policy, hpreparable.budget,
            hpreparable.entry, hpreparable.active, hpreparable.running, hpreparable.missing,
            hpreparable.timely⟩ hload
    · obtain ⟨state, turn, useful, victims, cache, hstate, hturn, huseful, hcredit, hload, rfl⟩ :=
        startRequest_started h
      obtain ⟨state', hstate', hstatus⟩ := hrun
      cases hstate.symm.trans hstate'
      exact .request hidle hqueue hdead hstate hstatus hturn huseful hcredit hload

/-! ## The loops -/

/-- The event that a step handles. -/
def Config.handles (c : Config T κ) : Option (Event T κ) :=
  match c.phase, c.sim.events with
  | .instant time, event :: _ => if event.time = time then some event else none
  | _, _ => none

/-- The ways through the nested loops of `run`. -/
inductive Stepped (S : Setup T κ) : Config T κ → Config T κ → Prop
  | enter {s : Simulation T κ} {event : Event T κ} {events : List (Event T κ)}
      (hevents : s.events = event :: events) (htime : event.time ≤ observationEnd S.workload) :
      Stepped S ⟨.loop, s⟩ ⟨.instant event.time, s.advance event.time⟩
  | leave {s : Simulation T κ} (hlater : ∀ event ∈ s.events.head?,
      observationEnd S.workload < event.time) :
      Stepped S ⟨.loop, s⟩ ⟨.done, s.advance (observationEnd S.workload)⟩
  | handle {time : T} {s s' : Simulation T κ} {event : Event T κ} {events : List (Event T κ)}
      (hevents : s.events = event :: events) (htime : event.time = time)
      (hhandled : Handled S { s with events := events } event.action s') :
      Stepped S ⟨.instant time, s⟩ ⟨.instant time, s'⟩
  | dispatch {time : T} {s s' : Simulation T κ} (hlater : ∀ event ∈ s.events.head?, event.time ≠ time)
      (hdispatched : Dispatched S s s') : Stepped S ⟨.instant time, s⟩ ⟨.loop, s'⟩
  | done {s : Simulation T κ} : Stepped S ⟨.done, s⟩ ⟨.done, s⟩

/-- **Every step of a run is one of these.** -/
theorem next_stepped {S : Setup T κ} {c c' : Config T κ} (h : next S c = some c') :
    Stepped S c c' := by
  obtain ⟨phase, s⟩ := c
  unfold next at h
  split at h
  · rename_i event events hphase hevents
    cases hphase
    split at h
    · rename_i htime
      cases h
      exact .enter hevents htime
    · rename_i htime
      cases h
      refine .leave fun e he => ?_
      rw [show s.events.head? = some event by rw [show s.events = _ from hevents]; rfl] at he
      cases he
      exact not_le.1 htime
  · rename_i hphase hevents
    cases hphase
    cases h
    refine .leave fun e he => ?_
    rw [show s.events.head? = none by rw [show s.events = _ from hevents]; rfl] at he
    cases he
  · rename_i time event events hphase hevents
    cases hphase
    split at h
    · rename_i htime
      obtain ⟨s', hs', rfl⟩ := Option.map_eq_some_iff.1 h
      exact .handle hevents htime (handle_handled hs')
    · rename_i htime
      obtain ⟨s', hs', rfl⟩ := Option.map_eq_some_iff.1 h
      refine .dispatch (fun e he => ?_) (dispatch_dispatched hs')
      rw [show s.events.head? = some event by rw [show s.events = _ from hevents]; rfl] at he
      cases he
      exact htime
  · rename_i time hphase hevents
    cases hphase
    obtain ⟨s', hs', rfl⟩ := Option.map_eq_some_iff.1 h
    refine .dispatch (fun e he => ?_) (dispatch_dispatched hs')
    rw [show s.events.head? = none by rw [show s.events = _ from hevents]; rfl] at he
    cases he
  · rename_i hphase
    cases hphase
    cases h
    exact .done

end ReedCode.Headroom
