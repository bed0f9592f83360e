import ReedCode.Headroom.Clock
import ReedCode.Headroom.Life

/-!
# The lives of the workflows

The simulation against the life of each of its workflows.

* `Simulation.life` — what a state holds of one workflow.
* `Handled.lives`, `Dispatched.lives` — a handled event and a dispatch are at most one step of
  each life.
* `Reachable.chronicled` — what the steps of a life keep holds at every point of every run.
-/

set_option autoImplicit false

universe u

namespace ReedCode.Headroom

variable {T : Type u} {κ : Type u}

/-! ## Projections -/

def Event.token? (ident : String) (event : Event T κ) : Option (Token T) :=
  match event.action with
  | .arrival workflow => if workflow = ident then some .arriving else none
  | .ready workflow index => if workflow = ident then some (.waiting index) else none
  | .finished (.demand workflow index _ ready _) =>
    if workflow = ident then some (.serving index ready event.time) else none
  | _ => none

def Event.deadline? (ident : String) (event : Event T κ) : Option T :=
  match event.action with
  | .deadline workflow => if workflow = ident then some event.time else none
  | _ => none

def Request.token? (ident : String) (request : Request T) : Option (Token T) :=
  if request.workflow = ident then some (.queued request.index request.ready) else none

def LogEntry.news? (ident : String) (entry : T × LogEntry T) : Option (T × News) :=
  match entry.2 with
  | .requestReady workflow turn => if workflow = ident then some (entry.1, .ready turn) else none
  | .requestFinished workflow turn =>
    if workflow = ident then some (entry.1, .finished turn) else none
  | .cancel workflow => if workflow = ident then some (entry.1, .cancelled) else none
  | _ => none

/-- What is outstanding of a workflow, in the heap and in the queue. -/
def tokens (ident : String) (events : List (Event T κ)) (queue : List (Request T)) :
    List (Token T) :=
  events.filterMap (Event.token? ident) ++ queue.filterMap (Request.token? ident)

def deadlines (ident : String) (events : List (Event T κ)) : List T :=
  events.filterMap (Event.deadline? ident)

def news (ident : String) (trace : List (T × LogEntry T)) : List (T × News) :=
  trace.filterMap (LogEntry.news? ident)

theorem tokens_enqueue (ident : String) (events : List (Event T κ)) (queue : List (Request T))
    (request : Request T) : tokens ident events (queue ++ [request]) =
      tokens ident events queue ++ [request].filterMap (Request.token? ident) := by
  rw [tokens, List.filterMap_append, ← List.append_assoc]
  rfl

theorem news_append (ident : String) (trace : List (T × LogEntry T)) (entry : T × LogEntry T) :
    news ident (trace ++ [entry]) = news ident trace ++ [entry].filterMap (LogEntry.news? ident) :=
  List.filterMap_append

theorem news_append_of_none {ident : String} {entry : T × LogEntry T}
    (h : LogEntry.news? ident entry = none) (trace : List (T × LogEntry T)) :
    news ident (trace ++ [entry]) = news ident trace := by
  rw [news_append, List.filterMap_cons_none h]
  exact List.append_nil _

theorem news_append_of_some {ident : String} {entry : T × LogEntry T} {item : T × News}
    (h : LogEntry.news? ident entry = some item) (trace : List (T × LogEntry T)) :
    news ident (trace ++ [entry]) = news ident trace ++ [item] := by
  rw [news_append, List.filterMap_cons_some h]
  rfl

variable [Zero T]

/-- What a state holds of one workflow. -/
def Simulation.life (s : Simulation T κ) (ident : String) (state : WorkflowState T) : Life T where
  state := state
  tokens := tokens ident s.events s.queue
  deadlines := deadlines ident s.events
  news := news ident s.trace

/-- A life does not see the other fields. -/
theorem life_congr {s s' : Simulation T κ} {ident : String} (hevents : s'.events = s.events)
    (hqueue : s'.queue = s.queue) (hnews : news ident s'.trace = news ident s.trace)
    (state : WorkflowState T) : s'.life ident state = s.life ident state := by
  unfold Simulation.life
  rw [hevents, hqueue, hnews]

/-! ## Foreign events -/

/-- The action is not one of the workflow. -/
def Action.Foreign (ident : String) (action : Action T κ) : Prop :=
  ∀ (time : T) (serial : Nat), (Event.mk time serial action).token? ident = none ∧
    (Event.mk time serial action).deadline? ident = none

omit [Zero T] in
theorem foreign_wake (ident : String) : (Action.wake : Action T κ).Foreign ident :=
  fun _ _ => ⟨rfl, rfl⟩

omit [Zero T] in
theorem foreign_update (ident workflow : String) (index : Nat) (update : Update T) :
    (Action.update workflow index update : Action T κ).Foreign ident := fun _ _ => ⟨rfl, rfl⟩

omit [Zero T] in
theorem foreign_speculative (ident workflow : String) (revision : Nat) (computed : List κ) :
    (Action.finished (.speculative workflow revision computed) : Action T κ).Foreign ident :=
  fun _ _ => ⟨rfl, rfl⟩

omit [Zero T] in
theorem foreign_ready {ident workflow : String} (h : workflow ≠ ident) (index : Nat) :
    (Action.ready workflow index : Action T κ).Foreign ident := fun _ _ => ⟨if_neg h, rfl⟩

omit [Zero T] in
theorem foreign_demand {ident workflow : String} (h : workflow ≠ ident) (index : Nat)
    (keys : List κ) (ready : T) (cached : Nat) :
    (Action.finished (.demand workflow index keys ready cached) : Action T κ).Foreign ident :=
  fun _ _ => ⟨if_neg h, rfl⟩

omit [Zero T] in
theorem foreign_arrival {ident workflow : String} (h : workflow ≠ ident) :
    (Action.arrival workflow : Action T κ).Foreign ident := fun _ _ => ⟨if_neg h, rfl⟩

omit [Zero T] in
theorem foreign_deadline {ident workflow : String} (h : workflow ≠ ident) :
    (Action.deadline workflow : Action T κ).Foreign ident := fun _ _ => ⟨rfl, if_neg h⟩

/-- Popping a foreign event. -/
theorem life_pop {s : Simulation T κ} {event : Event T κ} {events : List (Event T κ)}
    {ident : String} (hevents : s.events = event :: events) (hforeign : event.action.Foreign ident)
    (state : WorkflowState T) :
    ({ s with events := events } : Simulation T κ).life ident state = s.life ident state := by
  obtain ⟨htoken, hdeadline⟩ := hforeign event.time event.serial
  unfold Simulation.life tokens deadlines
  rw [hevents, List.filterMap_cons_none htoken, List.filterMap_cons_none hdeadline]

section Schedule

variable [LinearOrder T]

theorem life_event_foreign {ident : String} (state : WorkflowState T) {s : Simulation T κ} {time : T}
    {action : Action T κ} (h : action.Foreign ident) :
    (s.event time action).life ident state = s.life ident state := by
  obtain ⟨htoken, hdeadline⟩ := h time (s.serial + 1)
  unfold Simulation.life tokens deadlines Simulation.event
  rw [filterMap_push_of_none htoken, filterMap_push_of_none hdeadline]

theorem life_schedule {ident : String} (state : WorkflowState T) :
    ∀ {entries : List (T × Action T κ)} {s : Simulation T κ},
      (∀ entry ∈ entries, entry.2.Foreign ident) →
        (s.schedule entries).life ident state = s.life ident state
  | [], _, _ => rfl
  | entry :: entries, s, h => by
    rw [List.forall_mem_cons] at h
    have hrest : ((s.event entry.1 entry.2).schedule entries).life ident state =
        (s.event entry.1 entry.2).life ident state := life_schedule state h.2
    exact hrest.trans (life_event_foreign state h.1)

/-- A token is scheduled for a workflow that has none. -/
theorem life_event {ident : String} (state : WorkflowState T) {s : Simulation T κ} {time : T}
    {action : Action T κ} {token : Token T}
    (htoken : (Event.mk time (s.serial + 1) action).token? ident = some token)
    (hdeadline : (Event.mk time (s.serial + 1) action).deadline? ident = none)
    (hnone : tokens ident s.events s.queue = []) :
    (s.event time action).life ident state = { s.life ident state with tokens := [token] } := by
  obtain ⟨hevents, hqueue⟩ := List.append_eq_nil_iff.1 hnone
  unfold Simulation.life tokens deadlines Simulation.event
  rw [filterMap_push_of_some htoken hevents, filterMap_push_of_none hdeadline, hqueue,
    List.append_nil]

end Schedule

/-- Popping what was outstanding of a workflow. -/
theorem life_pop_token {s : Simulation T κ} {event : Event T κ} {events : List (Event T κ)}
    {ident : String} {token : Token T} (hevents : s.events = event :: events)
    (htoken : event.token? ident = some token) (hdeadline : event.deadline? ident = none)
    {state : WorkflowState T} (hone : (s.life ident state).tokens.length ≤ 1) :
    (s.life ident state).tokens = [token] ∧ tokens ident events s.queue = [] ∧
      ({ s with events := events } : Simulation T κ).life ident state =
        { s.life ident state with tokens := [] } := by
  have htokens : (s.life ident state).tokens = token :: tokens ident events s.queue := by
    unfold Simulation.life tokens
    rw [hevents, List.filterMap_cons_some htoken]
    rfl
  rw [htokens, List.length_cons] at hone
  have hnil : tokens ident events s.queue = [] := List.length_eq_zero_iff.1 (by omega)
  refine ⟨by rw [htokens, hnil], hnil, ?_⟩
  unfold Simulation.life
  rw [hnil]
  unfold deadlines
  rw [hevents, List.filterMap_cons_none hdeadline]

/-! ## Handlers -/

variable [LinearOrder T] [Add T] [Sub T] [Mul T] [NatCast T] [DecidableEq κ] {S : Setup T κ}
  {s : Simulation T κ}

theorem foreign_turnEvents {ident workflow : String} (h : workflow ≠ ident) {index : Nat}
    {turn : Turn T} {intent : Intent T κ} : ∀ entry ∈ turnEvents s workflow index turn ++ wakes S s intent,
      entry.2.Foreign ident := by
  intro entry hentry
  rcases List.mem_append.1 hentry with hentry | hentry
  · rcases List.mem_cons.1 hentry with rfl | hentry
    · exact foreign_ready h index
    · obtain ⟨update, -, rfl⟩ := List.mem_map.1 hentry
      exact foreign_update ident workflow index update
  · rw [(mem_wakes hentry).1]
    exact foreign_wake ident

theorem Turned.states {workflow : String} {index : Nat} {s' : Simulation T κ}
    (h : Turned S s workflow index s') : s'.states = s.states := by
  cases h with
  | dead _ _ => rfl
  | first _ _ _ _ => rfl
  | wait _ _ _ _ => rw [Simulation.schedule_eq]

/-- A turn of one workflow is nothing to another. -/
theorem Turned.life_other {workflow ident : String} (hne : workflow ≠ ident) {index : Nat}
    {s' : Simulation T κ} (h : Turned S s workflow index s') (state : WorkflowState T) :
    s'.life ident state = s.life ident state := by
  cases h with
  | dead _ _ => rfl
  | first _ _ _ _ =>
    refine life_schedule state fun entry hentry => ?_
    rw [List.mem_singleton.1 hentry]
    exact foreign_ready hne index
  | @wait _ turn _ _ _ _ =>
    exact life_schedule (s := { s with
      intents := s.intents.insert workflow (s.newIntent S index turn) }) state
      (foreign_turnEvents hne)

/-- The turn of a running workflow is waited for. -/
theorem Turned.life_self {ident : String} {index : Nat} {s' : Simulation T κ}
    (h : Turned S s ident index s') {state : WorkflowState T}
    (hstate : s.states.get? ident = some state) (hrunning : state.status = .running)
    (hnone : tokens ident s.events s.queue = []) (state' : WorkflowState T) :
    s'.life ident state' = { s.life ident state' with tokens := [.waiting index] } := by
  have hready : ∀ time serial, (Event.mk time serial (.ready ident index : Action T κ)).token? ident =
      some (.waiting index) := fun _ _ => if_pos rfl
  cases h with
  | dead hstate' hdead =>
    cases hstate.symm.trans hstate'
    exact absurd hrunning hdead
  | first _ _ _ _ => exact life_event state' (hready _ _) rfl hnone
  | @wait _ turn _ _ _ _ =>
    have hfirst := life_event (s := { s with
      intents := s.intents.insert ident (s.newIntent S index turn) }) state'
      (hready (s.now + turn.waitMs) _) rfl hnone
    have hrest : ∀ entry ∈ turn.updates.map (fun update => (s.now + update.atMs,
        (Action.update ident index update : Action T κ))) ++ wakes S s (s.newIntent S index turn),
        entry.2.Foreign ident := by
      intro entry hentry
      rcases List.mem_append.1 hentry with hentry | hentry
      · obtain ⟨update, -, rfl⟩ := List.mem_map.1 hentry
        exact foreign_update ident ident index update
      · rw [(mem_wakes hentry).1]
        exact foreign_wake ident
    exact (life_schedule (s := ({ s with
      intents := s.intents.insert ident (s.newIntent S index turn) } : Simulation T κ).event
        (s.now + turn.waitMs) (.ready ident index)) state' hrest).trans hfirst

/-- A step of the simulation is at most one step of a life. -/
def Lives (now : T) (ident : String) (s s' : Simulation T κ) : Prop :=
  ∀ state, s.states.get? ident = some state → (s.life ident state).tokens.length ≤ 1 →
    ∃ state', s'.states.get? ident = some state' ∧
      (s'.life ident state' = s.life ident state ∨
        Lived now (s.life ident state) (s'.life ident state'))

omit [Add T] [Mul T] [NatCast T] [DecidableEq κ] in
theorem Lives.same {now : T} {ident : String} {s' : Simulation T κ}
    (hstates : s'.states.get? ident = s.states.get? ident)
    (hlife : ∀ state, s'.life ident state = s.life ident state) : Lives now ident s s' :=
  fun state hstate _ => ⟨state, hstates.trans hstate, Or.inl (hlife state)⟩

/-- An arrival. -/
theorem lives_arrival {event : Event T κ} {events : List (Event T κ)} {ident : String}
    (hevents : s.events = event :: events) (haction : event.action = .arrival ident)
    {s' : Simulation T κ} (hturned : Turned S { s with events := events } ident 0 s') :
    Lives s.now ident s s' := by
  intro state hstate hone
  have htoken : event.token? ident = some .arriving := by
    rw [Event.token?, haction]
    exact if_pos rfl
  have hdeadline : event.deadline? ident = none := by rw [Event.deadline?, haction]
  obtain ⟨htokens, hnone, hpop⟩ := life_pop_token hevents htoken hdeadline hone
  refine ⟨state, (congrArg (FinMap.get? · ident) hturned.states).trans hstate, Or.inr ?_⟩
  by_cases hrunning : state.status = .running
  · rw [hturned.life_self hstate hrunning hnone, hpop]
    exact .arrived hrunning htokens
  · cases hturned with
    | dead _ _ =>
      rw [hpop]
      exact .forgotten hrunning htokens
    | first hstate' hstatus _ _ =>
      cases hstate.symm.trans hstate'
      exact absurd hstatus hrunning
    | wait _ _ _ hindex => exact absurd rfl hindex

/-- A request is ready. -/
theorem lives_ready {event : Event T κ} {events : List (Event T κ)} {ident : String} {index : Nat}
    (hevents : s.events = event :: events) (haction : event.action = .ready ident index)
    {s' : Simulation T κ} (hhandled : Handled S { s with events := events } (.ready ident index) s') :
    Lives s.now ident s s' := by
  intro state hstate hone
  have htoken : event.token? ident = some (.waiting index) := by
    rw [Event.token?, haction]
    exact if_pos rfl
  have hdeadline : event.deadline? ident = none := by rw [Event.deadline?, haction]
  obtain ⟨htokens, hnone, hpop⟩ := life_pop_token hevents htoken hdeadline hone
  cases hhandled with
  | readyDead hstate' hdead =>
    cases hstate.symm.trans hstate'
    refine ⟨state, hstate, Or.inr ?_⟩
    rw [hpop]
    exact .forgotten hdead htokens
  | ready hstate' hrunning =>
    cases hstate.symm.trans hstate'
    refine ⟨state, hstate, Or.inr ?_⟩
    have hlife : Life.mk state (tokens ident events (s.queue ++ [⟨ident, index, s.now⟩]))
        (deadlines ident events) (news ident (s.trace ++ [(s.now, .requestReady ident index)])) =
        { s.life ident state with
          tokens := [.queued index s.now]
          news := (s.life ident state).news ++ [(s.now, .ready index)] } := by
      have hqueued : (Request.mk ident index s.now).token? ident = some (.queued index s.now) :=
        if_pos rfl
      have hnews : LogEntry.news? ident (s.now, .requestReady ident index) =
          some (s.now, .ready index) := if_pos rfl
      rw [tokens_enqueue, hnone, List.filterMap_cons_some hqueued, news_append_of_some hnews,
        show deadlines ident events = _ from congrArg Life.deadlines hpop]
      rfl
    have hlived : Lived s.now (s.life ident state) _ := .ready hrunning htokens
    exact hlived.of_eq hlife

/-- A request finishes. -/
theorem lives_demand {event : Event T κ} {events : List (Event T κ)} {ident : String} {index : Nat}
    {keys : List κ} {ready : T} {cached : Nat} (hevents : s.events = event :: events)
    (haction : event.action = .finished (.demand ident index keys ready cached))
    (htime : event.time = s.now) (hfuture : ∀ e ∈ events, s.now ≤ e.time) {s' : Simulation T κ}
    (hhandled : Handled S { s with events := events }
      (.finished (.demand ident index keys ready cached)) s') : Lives s.now ident s s' := by
  intro state hstate hone
  have htoken : event.token? ident = some (.serving index ready s.now) := by
    rw [Event.token?, haction, ← htime]
    exact if_pos rfl
  have hdeadline : event.deadline? ident = none := by rw [Event.deadline?, haction]
  obtain ⟨htokens, hnone, hpop⟩ := life_pop_token hevents htoken hdeadline hone
  have hdeadlines : deadlines ident events = (s.life ident state).deadlines :=
    congrArg Life.deadlines hpop
  have hlife : ∀ state', (recorded { s with events := events } state ident index keys ready
      cached).life ident state' =
        { (s.life ident state).finish s.now index ready cached [] with state := state' } := by
    intro state'
    have hnews : LogEntry.news? ident (s.now, .requestFinished ident index) =
        some (s.now, .finished index) := if_pos rfl
    have hfields : Life.mk state' (tokens ident events s.queue) (deadlines ident events)
        (news ident (s.trace ++ [(s.now, .requestFinished ident index)])) =
        { (s.life ident state).finish s.now index ready cached [] with state := state' } := by
      rw [hnone, hdeadlines, news_append_of_some hnews]
      rfl
    exact hfields
  cases hhandled with
  | requestDead hstate' hdead =>
    cases hstate.symm.trans hstate'
    refine ⟨_, FinMap.get?_insert_self .., Or.inr ?_⟩
    rw [hlife]
    exact .finishedDead hdead htokens
  | requestLast hstate' hrunning hlast =>
    cases hstate.symm.trans hstate'
    refine ⟨_, FinMap.get?_insert_self .., Or.inr ?_⟩
    have htimely : ∀ deadline ∈ (s.life ident state).deadlines, s.now ≤ deadline := by
      rw [← hdeadlines]
      intro deadline hmem
      obtain ⟨e, he, hdeadline⟩ := List.mem_filterMap.1 hmem
      have hle := hfuture e he
      unfold Event.deadline? at hdeadline
      split at hdeadline
      · split at hdeadline
        · cases hdeadline
          exact hle
        · cases hdeadline
      · cases hdeadline
    have hsame := hlife { state.record s.now index ready cached with
      status := .completed, completionMs := some (s.now - state.workflow.arrivalMs) }
    exact (Lived.finishedLast hrunning htokens hlast htimely).of_eq hsame
  | @requestNext _ _ _ _ _ state₂ s' hstate' hrunning hmore hturned =>
    cases hstate.symm.trans hstate'
    have hrecorded : (recorded { s with events := events } state ident index keys ready
        cached).states.get? ident = some (state.record s.now index ready cached) :=
      FinMap.get?_insert_self ..
    refine ⟨_, (congrArg (FinMap.get? · ident) hturned.states).trans hrecorded, Or.inr ?_⟩
    rw [hturned.life_self hrecorded hrunning hnone, hlife]
    exact .finishedNext hrunning htokens hmore

omit [LinearOrder T] [Zero T] [Add T] [Sub T] [Mul T] [NatCast T] [DecidableEq κ] in
/-- What is served finishes with its event. -/
theorem finish_of_token? {event : Event T κ} {ident : String} {token : Token T}
    (h : event.token? ident = some token) {finish : T} (hfinish : finish ∈ token.finish?) :
    event.time = finish ∧ event.action.order = 0 := by
  unfold Event.token? at h
  split at h
  · split at h <;> cases h
    cases hfinish
  · split at h <;> cases h
    cases hfinish
  · rename_i hjob
    split at h <;> cases h
    cases hfinish
    exact ⟨rfl, by rw [hjob]; rfl⟩
  · cases h

omit [Add T] [Sub T] [Mul T] [NatCast T] [DecidableEq κ] in
/-- A request that finishes at the time of a deadline is handled before it. -/
theorem lt_of_serving (hs : Orderly S s) {event : Event T κ} {events : List (Event T κ)}
    {workflow ident : String} (hevents : s.events = event :: events)
    (haction : event.action = .deadline workflow) (htime : event.time = s.now) {token : Token T}
    (hmem : token ∈ tokens ident s.events s.queue) {finish : T} (hfinish : finish ∈ token.finish?) :
    s.now < finish := by
  rcases List.mem_append.1 hmem with hmem | hmem
  · obtain ⟨e, he, hsome⟩ := List.mem_filterMap.1 hmem
    obtain ⟨rfl, horder⟩ := finish_of_token? hsome hfinish
    have hsorted := hs.sorted
    rw [hevents] at hsorted he
    rcases List.mem_cons.1 he with rfl | he
    · rw [haction] at horder
      cases horder
    · have hbefore := (List.pairwise_cons.1 hsorted).1 e he
      unfold Event.before at hbefore
      rw [htime, haction, horder] at hbefore
      rcases hbefore with hbefore | ⟨-, hbefore⟩
      · exact hbefore
      · simp only [Action.order] at hbefore
        omega
  · obtain ⟨request, -, hsome⟩ := List.mem_filterMap.1 hmem
    unfold Request.token? at hsome
    split at hsome <;> cases hsome
    cases hfinish

/-- A deadline passes. -/
theorem lives_deadline (hs : Orderly S s) {event : Event T κ} {events : List (Event T κ)}
    {ident : String} (hevents : s.events = event :: events)
    (haction : event.action = .deadline ident) (htime : event.time = s.now) {s' : Simulation T κ}
    (hhandled : Handled S { s with events := events } (.deadline ident) s') :
    Lives s.now ident s s' := by
  intro state hstate _
  have htoken : event.token? ident = none := by rw [Event.token?, haction]
  have hdeadline : event.deadline? ident = some s.now := by
    rw [Event.deadline?, haction, ← htime]
    exact if_pos rfl
  have hdeadlines : (s.life ident state).deadlines = s.now :: deadlines ident events := by
    unfold Simulation.life deadlines
    rw [hevents, List.filterMap_cons_some hdeadline]
  have hpop : ∀ state', ({ s with events := events } : Simulation T κ).life ident state' =
      { s.life ident state with state := state', deadlines := deadlines ident events } := by
    intro state'
    unfold Simulation.life tokens
    rw [hevents, List.filterMap_cons_none htoken]
  cases hhandled with
  | deadlineDead hstate' hdead =>
    cases hstate.symm.trans hstate'
    refine ⟨state, hstate, Or.inr ?_⟩
    rw [hpop]
    exact .deadlineDead hdead hdeadlines
  | deadline hstate' hrunning =>
    cases hstate.symm.trans hstate'
    rw [deactivate_eq]
    refine ⟨{ state with status := .timeout }, FinMap.get?_insert_self .., Or.inr ?_⟩
    have hnews : news ident (s.trace ++ [(s.now, .deadline ident)]) = news ident s.trace :=
      news_append_of_none rfl s.trace
    have hlog : ((({ s with events := events } : Simulation T κ).setStatus ident state
        .timeout).log (.deadline ident)).life ident { state with status := .timeout } =
          ({ s with events := events } : Simulation T κ).life ident
            { state with status := .timeout } :=
      life_congr (s := { s with events := events }) (by rfl) (by rfl) hnews _
    have hlived : Lived s.now (s.life ident state) _ := .timeout hrunning hdeadlines
      fun token hmem finish hfinish => lt_of_serving hs hevents haction htime hmem hfinish
    have hlife := hlog.trans (hpop _)
    exact hlived.of_eq hlife

/-! ## Every step -/

omit [Add T] [Mul T] [NatCast T] [DecidableEq κ] in
/-- A handler that writes the state of another workflow and logs what is no news. -/
theorem Lives.other {now : T} {ident : String} {p s' : Simulation T κ} {entry : T × LogEntry T}
    (hpop : ∀ state, p.life ident state = s.life ident state) (hstates : p.states = s.states)
    (hnews : LogEntry.news? ident entry = none) (hstates' : s'.states.get? ident = p.states.get? ident)
    (hevents : s'.events = p.events) (hqueue : s'.queue = p.queue)
    (htrace : s'.trace = p.trace ++ [entry]) : Lives now ident s s' := by
  refine .same (by rw [hstates', hstates]) fun state => ?_
  refine (life_congr hevents hqueue ?_ state).trans (hpop state)
  rw [htrace, news_append_of_none hnews]

/-- **A handled event is at most one step of each life.** -/
theorem Handled.lives (hs : Orderly S s) {event : Event T κ} {events : List (Event T κ)}
    (hevents : s.events = event :: events) (htime : event.time = s.now) {s' : Simulation T κ}
    (hhandled : Handled S { s with events := events } event.action s') (ident : String) :
    Lives s.now ident s s' := by
  have hpop : event.action.Foreign ident → ∀ state,
      ({ s with events := events } : Simulation T κ).life ident state = s.life ident state :=
    life_pop hevents
  have hfuture : ∀ e ∈ events, s.now ≤ e.time := fun e he =>
    hs.future e (hevents ▸ List.mem_cons_of_mem _ he)
  generalize haction : event.action = action at hhandled hpop
  cases action with
  | wake =>
    cases hhandled
    exact .same rfl (hpop (foreign_wake ident))
  | arrival workflow =>
    by_cases hself : workflow = ident
    · subst hself
      cases hhandled with
      | arrival hturned => exact lives_arrival hevents haction hturned
    · cases hhandled with
      | arrival hturned =>
        refine .same (congrArg (FinMap.get? · ident) hturned.states) fun state => ?_
        exact (hturned.life_other hself state).trans (hpop (foreign_arrival hself) state)
  | deadline workflow =>
    by_cases hself : workflow = ident
    · subst hself
      exact lives_deadline hs hevents haction htime hhandled
    · have hsame := hpop (foreign_deadline hself)
      cases hhandled with
      | deadlineDead _ _ => exact .same rfl hsame
      | @deadline _ state _ _ =>
        rw [deactivate_eq]
        exact .other hsame rfl rfl (FinMap.get?_insert_ne _ _ hself) rfl rfl rfl
  | ready workflow index =>
    by_cases hself : workflow = ident
    · subst hself
      exact lives_ready hevents haction hhandled
    · have hsame := hpop (foreign_ready hself index)
      cases hhandled with
      | readyDead _ _ => exact .same rfl hsame
      | ready _ _ =>
        refine .same rfl fun state => Eq.trans ?_ (hsame state)
        have hqueue : (Request.mk workflow index s.now).token? ident = none := if_neg hself
        have hnews : LogEntry.news? ident (s.now, .requestReady workflow index) = none := if_neg hself
        show Life.mk state (tokens ident events (s.queue ++ [⟨workflow, index, s.now⟩]))
          (deadlines ident events) (news ident (s.trace ++ [(s.now, .requestReady workflow index)])) = _
        rw [tokens_enqueue, List.filterMap_cons_none hqueue, news_append_of_none hnews]
        exact congrArg (Life.mk state · _ _) (List.append_nil _)
  | update workflow index update =>
    have hsame := hpop (foreign_update ident workflow index update)
    cases hhandled with
    | updateStale _ => exact .same rfl hsame
    | @cancelled _ _ intent state hintent hstate hrunning _ =>
      by_cases hself : workflow = ident
      · subst hself
        intro state' hstate' _
        cases hstate.symm.trans hstate'
        refine ⟨{ state with status := .cancelled }, FinMap.get?_insert_self .., Or.inr ?_⟩
        have hnews : LogEntry.news? workflow (s.now, .cancel workflow) =
            some (s.now, News.cancelled) :=
          if_pos rfl
        have hlife : Life.mk { state with status := .cancelled } (tokens workflow events s.queue)
            (deadlines workflow events) (news workflow (s.trace ++ [(s.now, .cancel workflow)])) =
            { s.life workflow state with
              state := { state with status := .cancelled }
              news := (s.life workflow state).news ++ [(s.now, News.cancelled)] } := by
          rw [news_append_of_some hnews]
          exact congrArg (fun life : Life T => { life with
            state := { state with status := .cancelled }
            news := life.news ++ [(s.now, News.cancelled)] }) (hsame state)
        have hlived : Lived s.now (s.life workflow state) _ := .cancelled hrunning
        exact hlived.of_eq hlife
      · have hnews : LogEntry.news? ident (s.now, .cancel workflow) = none := if_neg hself
        exact .other hsame rfl hnews (FinMap.get?_insert_ne _ _ hself) rfl rfl rfl
    | @revised _ _ intent state blocks _ _ _ _ =>
      have hforeign : ∀ entry ∈ wakes S { s with events := events } { intent with
          revision := intent.revision + 1, keys := S.digest.blockKeys blocks },
          entry.2.Foreign ident := fun entry hentry => by
        rw [(mem_wakes hentry).1]
        exact foreign_wake ident
      refine .same ?_ fun state => (life_schedule state hforeign).trans ?_
      · rw [Simulation.schedule_eq]
        rfl
      · exact (life_congr (s := { s with events := events }) (by rfl) (by rfl)
          (news_append_of_none (by rfl) s.trace) state).trans (hsame state)
  | finished job =>
    cases job with
    | speculative workflow revision computed =>
      have hsame := hpop (foreign_speculative ident workflow revision computed)
      cases hhandled with
      | prepared _ _ =>
        refine .same rfl fun state => ?_
        exact (life_congr (s := { s with events := events }) (by rfl) (by rfl)
          (news_append_of_none (by rfl) s.trace) state).trans (hsame state)
    | demand workflow index keys ready cached =>
      by_cases hself : workflow = ident
      · subst hself
        exact lives_demand hevents haction htime hfuture hhandled
      · have hsame := hpop (foreign_demand hself index keys ready cached)
        have hnews : LogEntry.news? ident (s.now, .requestFinished workflow index) = none :=
          if_neg hself
        cases hhandled with
        | requestDead _ _ =>
          exact .other hsame rfl hnews (FinMap.get?_insert_ne _ _ hself) rfl rfl rfl
        | requestLast _ _ _ =>
          refine .other hsame rfl hnews ?_ rfl rfl rfl
          exact (FinMap.get?_insert_ne _ _ hself).trans (FinMap.get?_insert_ne _ _ hself)
        | @requestNext _ _ _ _ _ state _ _ _ _ hturned =>
          refine .same ?_ fun state' => ?_
          · rw [hturned.states]
            exact FinMap.get?_insert_ne _ _ hself
          · refine (hturned.life_other hself state').trans (Eq.trans ?_ (hsame state'))
            exact life_congr (s := { s with events := events }) (by rfl) (by rfl)
              (news_append_of_none hnews s.trace) state'

/-! ## Dispatch -/

omit [Add T] [Mul T] [NatCast T] [DecidableEq κ] in
/-- Requests of dead workflows are dropped. -/
theorem lives_drop {now : T} {dead rest : List (Request T)} (hqueue : s.queue = dead ++ rest)
    (hdead : ∀ r ∈ dead, s.Dead r.workflow) (ident : String) :
    Lives now ident s { s with queue := rest } := by
  intro state hstate hone
  refine ⟨state, hstate, ?_⟩
  have htokens : (s.life ident state).tokens = s.events.filterMap (Event.token? ident) ++
      (dead.filterMap (Request.token? ident) ++ rest.filterMap (Request.token? ident)) := by
    unfold Simulation.life tokens
    rw [hqueue, List.filterMap_append]
  cases hdropped : dead.filterMap (Request.token? ident) with
  | nil =>
    rw [hdropped, List.nil_append] at htokens
    exact Or.inl (congrArg (fun tokens => { s.life ident state with tokens := tokens }) htokens).symm
  | cons token others =>
    rw [hdropped] at htokens
    rw [htokens, List.length_append, List.length_append, List.length_cons] at hone
    have hevents : s.events.filterMap (Event.token? ident) = [] :=
      List.length_eq_zero_iff.1 (by omega)
    have hothers : others = [] := List.length_eq_zero_iff.1 (by omega)
    have hrest : rest.filterMap (Request.token? ident) = [] := List.length_eq_zero_iff.1 (by omega)
    have hmem : token ∈ dead.filterMap (Request.token? ident) := hdropped ▸ List.mem_cons_self
    obtain ⟨request, hrequest, htoken⟩ := List.mem_filterMap.1 hmem
    have hident : request.workflow = ident := by
      unfold Request.token? at htoken
      split at htoken
      · assumption
      · cases htoken
    obtain ⟨state', hstate', hstatus⟩ := hdead request hrequest
    rw [hident] at hstate'
    cases hstate.symm.trans hstate'
    rw [hevents, hothers, hrest, List.nil_append, List.append_nil] at htokens
    refine Or.inr ((Lived.forgotten hstatus htokens).of_eq ?_)
    unfold Simulation.life tokens
    rw [hevents, hrest]
    rfl

omit [Add T] in
theorem foreign_searched {skipped : List (String × Intent T κ)} {ident : String} :
    ∀ entry ∈ skipped.flatMap fun e => wakes S s e.2, entry.2.Foreign ident := by
  intro entry hentry
  obtain ⟨e, -, hentry⟩ := List.mem_flatMap.1 hentry
  rw [(mem_wakes hentry).1]
  exact foreign_wake ident

omit [Add T] in
/-- Looking for an intent drops the queue. -/
theorem lives_searched {now : T} (hdead : ∀ r ∈ s.queue, s.Dead r.workflow)
    (skipped : List (String × Intent T κ)) (ident : String) :
    Lives now ident s (searched S s skipped) := by
  intro state hstate hone
  have hdropped : Lives now ident s { s with queue := [] } :=
    lives_drop (List.append_nil s.queue).symm hdead ident
  obtain ⟨state', hstate', hlife⟩ := hdropped state hstate hone
  refine ⟨state', ?_, ?_⟩
  · rw [searched_eq]
    exact hstate'
  · have hsame : (searched S s skipped).life ident state' =
        ({ s with queue := [] } : Simulation T κ).life ident state' :=
      life_schedule state' foreign_searched
    rw [hsame]
    exact hlife

/-- **A dispatch is at most one step of each life.** -/
theorem Dispatched.lives {s' : Simulation T κ} (h : Dispatched S s s') (ident : String) :
    Lives s.now ident s s' := by
  cases h with
  | busy _ => exact .same rfl fun _ => rfl
  | idle _ hdead _ => exact lives_searched hdead _ ident
  | @preparation skipped workflow intent victims cache _ hdead _ _ _ =>
    intro state hstate hone
    have hsearched : Lives s.now ident s (searched S s skipped) := lives_searched hdead skipped ident
    obtain ⟨state', hstate', hlife⟩ := hsearched state hstate hone
    have hsame : (preparationStarted S (searched S s skipped) workflow intent victims cache).life
        ident state' = (searched S s skipped).life ident state' := by
      refine (life_event_foreign state' (foreign_speculative ident workflow _ _)).trans ?_
      exact life_congr (s := searched S s skipped) (by rfl) (by rfl)
        (news_append_of_none (by rfl) _) state'
    refine ⟨state', hstate', ?_⟩
    rw [hsame]
    exact hlife
  | @request dead rest request state turn useful victims cache _ hqueue hdead hstate hrunning _ _ _ _ =>
    intro state' hstate' hone
    by_cases hself : request.workflow = ident
    · subst hself
      cases hstate.symm.trans hstate'
      have hqueued : request.token? request.workflow = some (.queued request.index request.ready) :=
        if_pos rfl
      have htokens : (s.life request.workflow state).tokens =
          s.events.filterMap (Event.token? request.workflow) ++
            (dead.filterMap (Request.token? request.workflow) ++
              .queued request.index request.ready ::
                rest.filterMap (Request.token? request.workflow)) := by
        unfold Simulation.life tokens
        rw [hqueue, List.filterMap_append, List.filterMap_cons_some hqueued]
      rw [htokens, List.length_append, List.length_append, List.length_cons] at hone
      have hevents : s.events.filterMap (Event.token? request.workflow) = [] :=
        List.length_eq_zero_iff.1 (by omega)
      have hdropped : dead.filterMap (Request.token? request.workflow) = [] :=
        List.length_eq_zero_iff.1 (by omega)
      have hrest : rest.filterMap (Request.token? request.workflow) = [] :=
        List.length_eq_zero_iff.1 (by omega)
      rw [hevents, hdropped, hrest] at htokens
      have hnone : tokens request.workflow s.events rest = [] := by
        rw [tokens, hevents, hrest]
        rfl
      have hserving : ∀ serial, (Event.mk (s.now + requestCost S s turn) serial
          (.finished (.demand request.workflow request.index (requestKeys S turn) request.ready
            (creditedBlocks S s turn)))).token? request.workflow =
          some (.serving request.index request.ready (s.now + requestCost S s turn)) :=
        fun _ => if_pos rfl
      have hnews : news request.workflow (s.trace ++ [(s.now, .requestStarted request.workflow
          request.index (requestCost S s turn) (creditedBlocks S s turn))]) =
            news request.workflow s.trace := news_append_of_none rfl s.trace
      have hlife : (requestStarted S s rest request turn useful victims cache).life request.workflow
          state = { s.life request.workflow state with
            tokens := [.serving request.index request.ready (s.now + requestCost S s turn)] } :=
        (life_event state (hserving _) rfl hnone).trans (congrArg (Life.mk state _ _) hnews)
      exact ⟨state, hstate, Or.inr ((Lived.started hrunning htokens).of_eq hlife)⟩
    · have hkeep : Lives s.now ident s { s with queue := request :: rest } :=
        lives_drop hqueue hdead ident
      obtain ⟨state₂, hstate₂, hlife⟩ := hkeep state' hstate' hone
      have hsame : (requestStarted S s rest request turn useful victims cache).life ident state₂ =
          ({ s with queue := request :: rest } : Simulation T κ).life ident state₂ := by
        have hother : request.token? ident = none := if_neg hself
        refine (life_event_foreign state₂ (foreign_demand hself _ _ _ _)).trans ?_
        show Life.mk state₂ (tokens ident s.events rest) _ (news ident (s.trace ++ _)) = _
        rw [news_append_of_none rfl]
        unfold Simulation.life tokens
        rw [List.filterMap_cons_none hother]
      refine ⟨state₂, hstate₂, ?_⟩
      rw [hsame]
      exact hlife

/-! ## Runs -/

def Workload.due (workload : Workload T) (workflow : Workflow T) : T :=
  workflow.arrivalMs + workload.horizonMs

/-- The lives of all workflows are recorded and judged as they should be. -/
def Chronicled (S : Setup T κ) (s : Simulation T κ) : Prop :=
  ∀ workflow ∈ S.workload.workflows, ∃ state, s.states.get? workflow.id = some state ∧
    Recorded s.now (s.life workflow.id state) ∧
      Judged (S.workload.due workflow) (s.life workflow.id state)

omit [Add T] [Sub T] [Mul T] [NatCast T] [DecidableEq κ] in
theorem Recorded.tokens_length {now : T} {life : Life T} (h : Recorded now life) :
    life.tokens.length ≤ 1 := by
  rcases h.token with hnil | ⟨token, hone, -⟩
  · rw [hnil]
    exact Nat.zero_le 1
  · rw [hone]
    exact Nat.le_refl 1

omit [Mul T] [NatCast T] [DecidableEq κ] in
theorem Chronicled.lives (h : Chronicled S s) {s' : Simulation T κ} (hnow : s'.now = s.now)
    (hlives : ∀ ident, Lives s.now ident s s') : Chronicled S s' := by
  intro workflow hworkflow
  obtain ⟨state, hstate, hrecorded, hjudged⟩ := h workflow hworkflow
  obtain ⟨state', hstate', hlife⟩ := hlives workflow.id state hstate hrecorded.tokens_length
  refine ⟨state', hstate', ?_⟩
  rw [hnow]
  rcases hlife with hsame | hlived
  · rw [hsame]
    exact ⟨hrecorded, hjudged⟩
  · exact ⟨hlived.recorded hrecorded, hlived.judged hjudged⟩

omit [DecidableEq κ] in
theorem Chronicled.advance (h : Chronicled S s) {time : T} (hle : s.now ≤ time) :
    Chronicled S (s.advance time) := fun workflow hworkflow =>
  have ⟨state, hstate, hrecorded, hjudged⟩ := h workflow hworkflow
  ⟨state, hstate, hrecorded.mono hle, hjudged⟩

theorem Stepped.chronicled {c c' : Config T κ} (hc : OrderlyAt S c) (h : Chronicled S c.sim)
    (hstep : Stepped S c c') : Chronicled S c'.sim := by
  cases hstep with
  | enter hevents _ => exact h.advance (hc.sim.future _ (hevents ▸ List.mem_cons_self))
  | leave _ => exact h.advance hc.now_le
  | @handle time s s' event events hevents htime hhandled =>
    have hnow : event.time = s.now := htime.trans (hc.instant time rfl).symm
    exact h.lives hhandled.now (hhandled.lives hc.sim hevents hnow)
  | dispatch _ hdispatched => exact h.lives hdispatched.now hdispatched.lives
  | done => exact h

omit [Sub T] [Mul T] [NatCast T] [DecidableEq κ] in
/-- A workflow that enters is born, if nothing was known of it. -/
theorem life_enter {workflow : Workflow T} (hlife : ∀ state,
    s.life workflow.id state = ⟨state, [], [], []⟩) :
    (s.enter S.workload.horizonMs workflow).life workflow.id ⟨workflow, .running, [], none⟩ =
      .born workflow (S.workload.due workflow) := by
  have hempty := hlife ⟨workflow, .running, [], none⟩
  have htokens := congrArg Life.tokens hempty
  obtain ⟨hevents, hqueue⟩ := List.append_eq_nil_iff.1 htokens
  have harrival : ∀ serial, (Event.mk workflow.arrivalMs serial
      (.arrival workflow.id : Action T κ)).token? workflow.id = some .arriving := fun _ => if_pos rfl
  have hdeadline : ∀ serial, (Event.mk (workflow.arrivalMs + S.workload.horizonMs) serial
      (.deadline workflow.id : Action T κ)).deadline? workflow.id =
        some (S.workload.due workflow) := fun _ => if_pos rfl
  unfold Simulation.life Simulation.enter tokens deadlines Simulation.event
  rw [filterMap_push_of_none rfl, filterMap_push_of_some (harrival _) hevents, hqueue,
    filterMap_push_of_some (hdeadline _) ?_]
  · rw [show news workflow.id s.trace = [] from congrArg Life.news hempty]
    rfl
  · rw [filterMap_push_of_none rfl]
    exact congrArg Life.deadlines hempty

omit [Sub T] [Mul T] [NatCast T] [DecidableEq κ] in
theorem life_enter_other {workflow : Workflow T} {ident : String} (hne : workflow.id ≠ ident)
    (state : WorkflowState T) :
    (s.enter S.workload.horizonMs workflow).life ident state = s.life ident state :=
  (life_event_foreign state (foreign_deadline hne)).trans
    (life_event_foreign state (foreign_arrival hne))

omit [Mul T] [NatCast T] [DecidableEq κ] in
theorem chronicled_start (hw : S.workload.Valid) : Chronicled S (start S).sim := by
  refine (start_induction (P := fun entered s => (∀ workflow ∈ entered, ∃ state,
    s.states.get? workflow.id = some state ∧ Recorded s.now (s.life workflow.id state) ∧
      Judged (S.workload.due workflow) (s.life workflow.id state)) ∧
    ∀ ident ∉ entered.map (·.id), ∀ state, s.life ident state = ⟨state, [], [], []⟩) hw
    ⟨fun workflow hworkflow => (by cases hworkflow), fun _ _ _ => rfl⟩ ?_).1
  rintro entered workflow s ⟨hentered, hother⟩ - hid
  refine ⟨fun wf hwf => ?_, fun ident hident state => ?_⟩
  · rcases List.mem_append.1 hwf with hwf | hwf
    · have hne : workflow.id ≠ wf.id := fun heq => hid (heq ▸ List.mem_map_of_mem hwf)
      obtain ⟨state, hstate, hlife⟩ := hentered wf hwf
      refine ⟨state, (FinMap.get?_insert_ne _ _ hne).trans hstate, ?_⟩
      rw [life_enter_other hne]
      exact hlife
    · rw [List.mem_singleton.1 hwf]
      refine ⟨_, FinMap.get?_insert_self .., ?_⟩
      rw [life_enter (hother workflow.id hid)]
      exact ⟨Life.born_recorded _ _ workflow, Life.born_judged _ workflow⟩
  · rw [List.map_append, List.mem_append, not_or, List.map_singleton, List.mem_singleton] at hident
    rw [life_enter_other fun heq => hident.2 heq.symm]
    exact hother ident hident.1 state

/-- **Every life is recorded and judged**, at every point of every run. -/
theorem Reachable.chronicled [Clock T] (hw : S.workload.Valid) {c : Config T κ} (hc : Reachable S c) :
    Chronicled S c.sim := by
  have h : OrderlyAt S c ∧ Chronicled S c.sim :=
    Runs.Reachable.invariant (P := fun c => OrderlyAt S c ∧ Chronicled S c.sim)
      ⟨orderly_start hw, chronicled_start hw⟩ (fun c c' h hnext =>
        have hstep := next_stepped hnext
        ⟨h.1.stepped hw hstep, hstep.chronicled h.1 h.2⟩) hc
  exact h.2

end ReedCode.Headroom
