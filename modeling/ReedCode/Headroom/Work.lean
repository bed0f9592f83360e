import ReedCode.Headroom.Accounting

/-!
# Work that is left

How much a run can still do besides waking up.

* `Action.work`, `Simulation.work` — the events that an event can still lead to, and those of a
  state with the preparations that its budget allows.
* `Handled.work_lt`, `Dispatched.work` — every handled event other than a wake-up and every job that
  starts **leaves less work**; a dispatch that starts none adds wake-ups only.
-/

set_option autoImplicit false

universe u

namespace ReedCode.Headroom

/-! ## The measure -/

section Measure

variable {T : Type u} [Zero T] {κ : Type u}

/-- The turns of the workflow of a name. -/
def Workload.turnsOf (workload : Workload T) (ident : String) : List (Turn T) :=
  ((workload.workflows.find? (·.id = ident)).map (·.turns)).getD []

/-- The events of one turn: its updates, its request when it is ready, queued and finished. -/
def Turn.work (turn : Turn T) : Nat := turn.updates.length + 3

/-- The work of the turns of a workflow from `index` on. -/
def turnsWork (S : Setup T κ) (ident : String) (index : Nat) : Nat :=
  (((S.workload.turnsOf ident).drop index).map Turn.work).sum

/-- The events that an event can lead to, with the event itself; wake-ups lead to none. -/
def Action.work (S : Setup T κ) : Action T κ → Nat
  | .finished (.demand ident index ..) => turnsWork S ident (index + 1) + 1
  | .finished (.speculative ..) => 1
  | .update .. => 1
  | .ready ident index => turnsWork S ident (index + 1) + 3
  | .arrival ident => turnsWork S ident 0 + 1
  | .deadline _ => 1
  | .wake => 0

def Request.work (S : Setup T κ) (request : Request T) : Nat :=
  turnsWork S request.workflow (request.index + 1) + 2

def entriesWork (S : Setup T κ) (entries : List (T × Action T κ)) : Nat :=
  (entries.map fun entry => entry.2.work S).sum

def eventsWork (S : Setup T κ) (events : List (Event T κ)) : Nat :=
  (events.map fun event => event.action.work S).sum

def queueWork (S : Setup T κ) (queue : List (Request T)) : Nat := (queue.map (Request.work S)).sum

/-- A preparation computes at least one block, starts once and finishes once. -/
def preparingWork (S : Setup T κ) (computed : Nat) : Nat :=
  2 * (S.workload.speculativeBlockBudget - computed)

def Simulation.work (S : Setup T κ) (s : Simulation T κ) : Nat :=
  eventsWork S s.events + queueWork S s.queue + preparingWork S s.stats.speculativeBlocksComputed

theorem eventsWork_cons (S : Setup T κ) (event : Event T κ) (events : List (Event T κ)) :
    eventsWork S (event :: events) = event.action.work S + eventsWork S events := List.sum_cons

theorem queueWork_append (S : Setup T κ) (queue queue' : List (Request T)) :
    queueWork S (queue ++ queue') = queueWork S queue + queueWork S queue' := by
  rw [queueWork, List.map_append, List.sum_append]
  rfl

theorem entriesWork_append (S : Setup T κ) (entries entries' : List (T × Action T κ)) :
    entriesWork S (entries ++ entries') = entriesWork S entries + entriesWork S entries' := by
  rw [entriesWork, List.map_append, List.sum_append]
  rfl

/-- The turns from one on are that one and those behind it. -/
theorem turnsWork_of_turn {S : Setup T κ} {ident : String} {index : Nat} {turn : Turn T}
    (h : (S.workload.turnsOf ident)[index]? = some turn) :
    turnsWork S ident index = turn.work + turnsWork S ident (index + 1) := by
  obtain ⟨hlt, rfl⟩ := List.getElem?_eq_some_iff.1 h
  rw [turnsWork, List.drop_eq_getElem_cons hlt, List.map_cons, List.sum_cons]
  rfl

theorem Workload.turnsOf_eq {workload : Workload T} (hdistinct : (workload.workflows.map (·.id)).Nodup)
    {workflow : Workflow T} (hworkflow : workflow ∈ workload.workflows) :
    workload.turnsOf workflow.id = workflow.turns := by
  refine List.ext_getElem? fun index => ?_
  rw [← workload.turn?_eq hdistinct hworkflow index, Workload.turn?, Workload.turnsOf]
  cases workload.workflows.find? (·.id = workflow.id) <;> rfl

variable [LinearOrder T]

theorem eventsWork_push (S : Setup T κ) (event : Event T κ) (events : List (Event T κ)) :
    eventsWork S (push event events) = event.action.work S + eventsWork S events := by
  have hperm := (push_perm event events).map fun e : Event T κ => e.action.work S
  exact hperm.sum_eq.trans List.sum_cons

theorem eventsWork_schedule (S : Setup T κ) : ∀ (entries : List (T × Action T κ))
    (s : Simulation T κ),
    eventsWork S (s.schedule entries).events = entriesWork S entries + eventsWork S s.events
  | [], _ => (Nat.zero_add _).symm
  | entry :: entries, s => by
    have hpush : eventsWork S (s.event entry.1 entry.2).events =
        entry.2.work S + eventsWork S s.events := eventsWork_push S _ s.events
    have hrest := eventsWork_schedule S entries (s.event entry.1 entry.2)
    rw [hpush] at hrest
    refine hrest.trans ?_
    rw [entriesWork, entriesWork, List.map_cons, List.sum_cons]
    omega

theorem work_schedule (S : Setup T κ) (s : Simulation T κ) (entries : List (T × Action T κ)) :
    (s.schedule entries).work S = entriesWork S entries + s.work S := by
  rw [Simulation.work, Simulation.work, eventsWork_schedule]
  rw [show (s.schedule entries).queue = s.queue by rw [Simulation.schedule_eq],
    show (s.schedule entries).stats = s.stats by rw [Simulation.schedule_eq]]
  omega

variable [Sub T] [Mul T] [NatCast T] [DecidableEq κ]

omit [LinearOrder T] [Sub T] [Mul T] [NatCast T] [DecidableEq κ] in
/-- Wake-ups are no work. -/
theorem entriesWork_wakes {S : Setup T κ} {entries : List (T × Action T κ)}
    (h : ∀ entry ∈ entries, entry.2 = .wake) : entriesWork S entries = 0 := by
  refine List.sum_eq_zero fun n hn => ?_
  obtain ⟨entry, hentry, rfl⟩ := List.mem_map.1 hn
  rw [h entry hentry]
  rfl

theorem wakes_wake {S : Setup T κ} {s : Simulation T κ} {intent : Intent T κ}
    {entry : T × Action T κ} (h : entry ∈ wakes S s intent) : entry.2 = .wake := (mem_wakes h).1

end Measure

/-! ## Steps -/

section Steps

variable {T : Type u} [LinearOrder T] [Zero T] {κ : Type u} {S : Setup T κ} {s s' : Simulation T κ}

omit [LinearOrder T] in
/-- The work is in the events, the queue and the blocks that were computed. -/
theorem work_congr (hevents : s'.events = s.events) (hqueue : s'.queue = s.queue)
    (hcomputed : s'.stats.speculativeBlocksComputed = s.stats.speculativeBlocksComputed) :
    s'.work S = s.work S := by
  rw [Simulation.work, Simulation.work, hevents, hqueue, hcomputed]

theorem work_event (s : Simulation T κ) (time : T) (action : Action T κ) :
    (s.event time action).work S = action.work S + s.work S := by
  have hevents : eventsWork S (s.event time action).events = action.work S + eventsWork S s.events :=
    eventsWork_push S _ s.events
  show eventsWork S (s.event time action).events + queueWork S s.queue +
    preparingWork S s.stats.speculativeBlocksComputed = _
  rw [hevents, Simulation.work]
  omega

/-- The turns that a state knows are those of its workflow. -/
def Looks (S : Setup T κ) (s : Simulation T κ) (ident : String) : Prop :=
  ∀ state, s.states.get? ident = some state → S.workload.turnsOf ident = state.workflow.turns

theorem WellFormed.looks (h : WellFormed S s) (hw : S.workload.Valid) {ident : String}
    (hknown : Known S ident) : Looks S s ident := by
  intro state hstate
  obtain ⟨hmem, rfl⟩ := h.workflow hknown hstate
  exact Workload.turnsOf_eq hw.distinct hmem

variable [Add T] [Sub T] [Mul T] [NatCast T] [DecidableEq κ]

omit [LinearOrder T] [Sub T] [Mul T] [NatCast T] [DecidableEq κ] in
theorem entriesWork_turnEvents (s : Simulation T κ) (ident : String) (index : Nat) (turn : Turn T) :
    entriesWork S (turnEvents s ident index turn) =
      turn.work + turnsWork S ident (index + 1) := by
  have hupdates : (turn.updates.map fun update =>
      Action.work S (.update ident index update)).sum = turn.updates.length := by
    simp [Action.work]
  rw [entriesWork, turnEvents, List.map_cons, List.sum_cons, List.map_map]
  refine (congrArg (_ + ·) hupdates).trans ?_
  rw [Action.work, Turn.work]
  omega

/-- A turn that starts is work of the turns from it on. -/
theorem Turned.work_le {ident : String} {index : Nat} (hlooks : Looks S s ident)
    (h : Turned S s ident index s') : s'.work S ≤ s.work S + turnsWork S ident index := by
  cases h with
  | dead _ _ => exact Nat.le_add_right _ _
  | @first state turn hstate _ hturn _ =>
    have hlook : (S.workload.turnsOf ident)[index]? = some turn := hlooks state hstate ▸ hturn
    have hevent : (s.schedule [(s.now + turn.waitMs, .ready ident index)]).work S =
        turnsWork S ident (index + 1) + 3 + s.work S := work_event s _ _
    rw [hevent, turnsWork_of_turn hlook, Turn.work]
    omega
  | @wait state turn hstate _ hturn _ =>
    have hlook : (S.workload.turnsOf ident)[index]? = some turn := hlooks state hstate ▸ hturn
    have hwakes : entriesWork S (wakes S s (s.newIntent S index turn)) = 0 :=
      entriesWork_wakes fun entry hentry => wakes_wake hentry
    rw [work_schedule, entriesWork_append, hwakes, entriesWork_turnEvents, turnsWork_of_turn hlook,
      Nat.add_zero, Nat.add_comm]
    exact Nat.le_refl _

/-- **A handled event other than a wake-up leaves less work.** -/
theorem Handled.work (h : WellFormed S s) (hw : S.workload.Valid) {action : Action T κ}
    (haction : ActionOk S s.intents action) (hhandled : Handled S s action s') :
    action = .wake ∧ s' = s ∨ s'.work S < s.work S + action.work S := by
  cases hhandled with
  | wake => exact .inl ⟨rfl, rfl⟩
  | @arrival ident _ hturned =>
    have hle := hturned.work_le (h.looks hw haction.known)
    exact .inr (by rw [Action.work]; omega)
  | deadlineDead _ _ => exact .inr (Nat.lt_succ_self _)
  | @deadline ident state hstate _ =>
    have hsame : (((s.setStatus ident state .timeout).deactivate ident).log (.deadline ident)).work
        S = s.work S := by
      rw [deactivate_eq]
      exact work_congr rfl rfl rfl
    exact .inr (hsame ▸ Nat.lt_succ_self _)
  | readyDead _ _ => exact .inr (by rw [Action.work]; omega)
  | @ready ident index _ _ _ =>
    refine .inr ?_
    have hqueue : queueWork S (s.queue ++ [⟨ident, index, s.now⟩]) =
        queueWork S s.queue + (turnsWork S ident (index + 1) + 2) := by
      rw [queueWork_append]
      rfl
    have hwork : Simulation.work S (({ s with
        intents := (s.deactivate ident).intents
        queue := s.queue ++ [⟨ident, index, s.now⟩] } : Simulation T κ).log
          (.requestReady ident index)) = s.work S + (turnsWork S ident (index + 1) + 2) := by
      show eventsWork S s.events + queueWork S (s.queue ++ [⟨ident, index, s.now⟩]) +
        preparingWork S s.stats.speculativeBlocksComputed = _
      rw [hqueue, Simulation.work]
      omega
    rw [hwork, Action.work]
    omega
  | updateStale _ => exact .inr (Nat.lt_succ_self _)
  | cancelled _ _ _ _ => exact .inr (Nat.lt_succ_self _)
  | @revised ident update intent state blocks _ _ _ _ =>
    refine .inr ?_
    rw [work_schedule, entriesWork_wakes fun entry hentry => wakes_wake hentry, Nat.zero_add]
    exact Nat.lt_succ_self _
  | prepared _ _ => exact .inr (Nat.lt_succ_self _)
  | requestDead _ _ => exact .inr (Nat.lt_succ_of_le (Nat.le_add_right _ _))
  | requestLast _ _ _ => exact .inr (Nat.lt_succ_of_le (Nat.le_add_right _ _))
  | @requestNext workflow index keys ready cached state _ hstate _ _ hturned =>
    have hlooks : Looks S (recorded s state workflow index keys ready cached) workflow := by
      intro state' hstate'
      have hsame : state' = state.record s.now index ready cached :=
        Option.some.inj (hstate'.symm.trans (FinMap.get?_insert_self ..))
      rw [hsame]
      exact h.looks hw haction.known state hstate
    have hle := hturned.work_le hlooks
    have hrecorded : (recorded s state workflow index keys ready cached).work S = s.work S :=
      work_congr rfl rfl rfl
    rw [hrecorded] at hle
    exact .inr (Nat.lt_succ_of_le hle)

/-! ## Dispatch -/

/-- What a dispatch leaves that starts nothing: wake-ups of the intents are all that is new. -/
structure Waits (S : Setup T κ) (s s' : Simulation T κ) : Prop where
  cache : s'.cache = s.cache
  intents : s'.intents = s.intents
  work : s'.work S ≤ s.work S
  events : ∀ e ∈ s'.events, e ∈ s.events ∨ e.action = .wake ∧
    ∃ entry ∈ s.intents.entries, (e.time, .wake) ∈ wakes S s entry.2

omit [Add T] in
theorem flatMap_wakes {skipped : List (String × Intent T κ)} {entry : T × Action T κ}
    (h : entry ∈ skipped.flatMap fun e => wakes S s e.2) :
    entry.2 = .wake ∧ ∃ e ∈ skipped, entry ∈ wakes S s e.2 := by
  obtain ⟨e, he, hentry⟩ := List.mem_flatMap.1 h
  exact ⟨wakes_wake hentry, e, he, hentry⟩

omit [Add T] in
theorem work_searched_le (s : Simulation T κ) (skipped : List (String × Intent T κ)) :
    (searched S s skipped).work S ≤ s.work S := by
  rw [searched, work_schedule, entriesWork_wakes fun entry hentry => (flatMap_wakes hentry).1,
    Nat.zero_add]
  show eventsWork S s.events + 0 + preparingWork S s.stats.speculativeBlocksComputed ≤
    eventsWork S s.events + queueWork S s.queue + preparingWork S s.stats.speculativeBlocksComputed
  omega

omit [Add T] in
/-- An intent that may be prepared is short of a block. -/
theorem Preparable.chunk_pos (hw : S.workload.Valid) {ident : String} {intent : Intent T κ}
    (h : Preparable S s ident intent) : 0 < chunk S s intent := by
  have hle : cachedPrefix s.cache intent.keys ≤ intent.keys.length := cachedPrefix_le _ _
  have hmissing := h.missing
  have hbudget := h.budget
  have hchunk := hw.chunk_pos
  rw [chunk]
  omega

/-- **A job that starts leaves less work; where none does, wake-ups are all that is new.** -/
theorem Dispatched.work (hw : S.workload.Valid) (h : Dispatched S s s') :
    Waits S s s' ∨ s'.work S < s.work S := by
  cases h with
  | busy _ => exact .inl ⟨rfl, rfl, Nat.le_refl _, fun _ he => .inl he⟩
  | @request dead rest request state turn useful victims cache _ hqueue _ _ _ _ _ _ _ =>
    refine .inr ?_
    rw [requestStarted, work_event]
    show turnsWork S request.workflow (request.index + 1) + 1 + (eventsWork S s.events +
      queueWork S rest + preparingWork S s.stats.speculativeBlocksComputed) < s.work S
    have hwork : queueWork S s.queue = queueWork S dead + (request.work S + queueWork S rest) := by
      rw [hqueue, queueWork_append]
      exact congrArg (_ + ·) List.sum_cons
    rw [Simulation.work, hwork, Request.work]
    omega
  | @idle skipped _ _ hskipped =>
    have hsame := searched_eq S s skipped
    refine .inl ⟨by rw [hsame], by rw [hsame], work_searched_le s skipped, fun e he => ?_⟩
    rcases Simulation.mem_schedule he with he | ⟨entry, hentry, htime, haction⟩
    · exact .inl he
    · obtain ⟨hwake, e', he', hmem⟩ := flatMap_wakes hentry
      refine .inr ⟨haction.trans hwake, e', hskipped.subset he', ?_⟩
      rw [htime, ← hwake]
      exact hmem
  | @preparation skipped ident intent victims cache _ _ _ hpreparable _ =>
    refine .inr ?_
    have hle : (searched S s skipped).work S ≤ s.work S := work_searched_le s skipped
    have hsame := searched_eq S s skipped
    have hstats : (searched S s skipped).stats = s.stats := by rw [hsame]
    have hchunk : chunk S (searched S s skipped) intent = chunk S s intent := by
      rw [hsame]
      rfl
    have hpos := hpreparable.chunk_pos hw
    have hbound : chunk S s intent ≤
        S.workload.speculativeBlockBudget - s.stats.speculativeBlocksComputed :=
      (Nat.min_le_left _ _).trans (Nat.min_le_right _ _)
    rw [preparationStarted, work_event]
    show 1 + (eventsWork S (searched S s skipped).events + queueWork S (searched S s skipped).queue +
      preparingWork S ((searched S s skipped).stats.speculativeBlocksComputed +
        chunk S (searched S s skipped) intent)) < s.work S
    rw [hstats, hchunk]
    rw [Simulation.work, hstats] at hle
    rw [preparingWork] at hle ⊢
    omega

end Steps

end ReedCode.Headroom
