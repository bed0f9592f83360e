import ReedCode.Headroom.CacheSound

/-!
# The invariant of the simulation

* `WellFormed` — every workflow has its state, and what events, queue and intents refer to
  exists.
* `Inv` — well-formed, a sound cache, and one `finished` event exactly when the GPU is busy.
* One lemma for each change of a field; `Inv.load` for a job that starts, `Inv.complete` for one
  that finishes.
-/

set_option autoImplicit false

universe u

namespace ReedCode.Headroom

variable {T : Type u} {κ : Type u}

/-! ## Running jobs -/

def Event.job? (event : Event T κ) : Option (Job T κ) :=
  match event.action with
  | .finished job => some job
  | _ => none

/-- The jobs whose `finished` event is scheduled. -/
def jobs (events : List (Event T κ)) : List (Job T κ) := events.filterMap Event.job?

theorem push_perm [LinearOrder T] (event : Event T κ) : ∀ events : List (Event T κ),
    (push event events).Perm (event :: events)
  | [] => .refl _
  | e :: events => by
    unfold push
    split
    · exact .refl _
    · exact ((push_perm event events).cons e).trans (.swap event e events)

theorem mem_push [LinearOrder T] {event e : Event T κ} {events : List (Event T κ)} :
    e ∈ push event events ↔ e = event ∨ e ∈ events := by
  rw [(push_perm event events).mem_iff, List.mem_cons]

/-- A projection does not see the events it gives nothing for. -/
theorem filterMap_push_of_none [LinearOrder T] {α : Type u} {f : Event T κ → Option α}
    {event : Event T κ} (h : f event = none) : ∀ events : List (Event T κ),
    (push event events).filterMap f = events.filterMap f
  | [] => by simp [push, h]
  | e :: events => by
    have ih := filterMap_push_of_none h events
    unfold push
    split
    · rw [List.filterMap_cons_none h]
    · rw [List.filterMap_cons, List.filterMap_cons, ih]

theorem filterMap_push_of_some [LinearOrder T] {α : Type u} {f : Event T κ → Option α}
    {event : Event T κ} {a : α} {events : List (Event T κ)} (h : f event = some a)
    (hevents : events.filterMap f = []) : (push event events).filterMap f = [a] := by
  have hperm := (push_perm event events).filterMap f
  rw [List.filterMap_cons_some h, hevents] at hperm
  exact List.perm_singleton.1 hperm

theorem jobs_push_of_none [LinearOrder T] {event : Event T κ} (h : event.job? = none)
    (events : List (Event T κ)) : jobs (push event events) = jobs events :=
  filterMap_push_of_none h events

theorem jobs_push_of_some [LinearOrder T] {event : Event T κ} {job : Job T κ}
    {events : List (Event T κ)} (h : event.job? = some job) (hjobs : jobs events = []) :
    jobs (push event events) = [job] :=
  filterMap_push_of_some h hjobs

/-! ## Well-formed states -/

variable [Zero T]

def Known (S : Setup T κ) (ident : String) : Prop :=
  ∃ workflow ∈ S.workload.workflows, workflow.id = ident

def HasTurn (S : Setup T κ) (ident : String) (index : Nat) : Prop :=
  ∃ workflow ∈ S.workload.workflows, workflow.id = ident ∧ index < workflow.turns.length

theorem HasTurn.known {S : Setup T κ} {ident : String} {index : Nat} (h : HasTurn S ident index) :
    Known S ident := by
  obtain ⟨workflow, hworkflow, hid, -⟩ := h
  exact ⟨workflow, hworkflow, hid⟩

/-- What the handler of an action looks up is there. -/
def ActionOk (S : Setup T κ) (intents : FinMap String (Intent T κ)) : Action T κ → Prop
  | .arrival ident => HasTurn S ident 0
  | .deadline ident => Known S ident
  | .ready ident index => HasTurn S ident index
  | .update ident _ update =>
    Known S ident ∧ update.change.blocks.length ≤ S.workload.cacheBlocks
  | .finished (.demand ident index ..) => HasTurn S ident index
  | .finished (.speculative ident ..) => Known S ident ∧ (intents.get? ident).isSome
  | .wake => True

/-- The keys of an intent are those of blocks that fit. -/
structure IntentOk (S : Setup T κ) (ident : String) (intent : Intent T κ) : Prop where
  known : Known S ident
  keys : ∃ blocks, intent.keys = S.digest.blockKeys blocks ∧
    blocks.length ≤ S.workload.cacheBlocks

structure WellFormed (S : Setup T κ) (s : Simulation T κ) : Prop where
  states : ∀ workflow ∈ S.workload.workflows,
    ∃ state, s.states.get? workflow.id = some state ∧ state.workflow = workflow
  events : ∀ event ∈ s.events, ActionOk S s.intents event.action
  queue : ∀ request ∈ s.queue, HasTurn S request.workflow request.index
  intents : ∀ ident intent, s.intents.get? ident = some intent → IntentOk S ident intent

theorem ActionOk.mono {S : Setup T κ} {intents intents' : FinMap String (Intent T κ)}
    {action : Action T κ} (h : ActionOk S intents action)
    (hmono : ∀ ident, (intents.get? ident).isSome → (intents'.get? ident).isSome) :
    ActionOk S intents' action := by
  cases action with
  | finished job =>
    cases job with
    | demand ident index keys ready cached => exact h
    | speculative ident revision computed => exact ⟨h.1, hmono ident h.2⟩
  | _ => exact h

variable [DecidableEq κ]

/-- The invariant. -/
structure Inv (S : Setup T κ) (s : Simulation T κ) : Prop where
  wellFormed : WellFormed S s
  cache : CacheSound S.workload.cacheBlocks s.cache s.history (jobs s.events)
  single : (jobs s.events).length = if s.busy then 1 else 0

namespace Inv

variable {S : Setup T κ} {s : Simulation T κ}

theorem jobs_eq_nil (h : Inv S s) (hidle : s.busy = false) : jobs s.events = [] := by
  have := h.single
  rw [hidle] at this
  exact List.length_eq_zero_iff.1 this

/-- The state of a known workflow. -/
theorem state (h : Inv S s) {ident : String} (hknown : Known S ident) :
    ∃ state, s.states.get? ident = some state ∧ state.workflow ∈ S.workload.workflows ∧
      state.workflow.id = ident := by
  obtain ⟨workflow, hworkflow, rfl⟩ := hknown
  obtain ⟨state, hstate, rfl⟩ := h.wellFormed.states workflow hworkflow
  exact ⟨state, hstate, hworkflow, rfl⟩

/-! ## Changes of one field -/

theorem log (h : Inv S s) (entry : LogEntry T) : Inv S (s.log entry) :=
  ⟨⟨h.wellFormed.states, h.wellFormed.events, h.wellFormed.queue, h.wellFormed.intents⟩, h.cache,
    h.single⟩

theorem stats (h : Inv S s) (stats : Stats T) : Inv S { s with stats := stats } :=
  ⟨⟨h.wellFormed.states, h.wellFormed.events, h.wellFormed.queue, h.wellFormed.intents⟩, h.cache,
    h.single⟩

theorem advance [Add T] [Sub T] [Mul T] [NatCast T] (h : Inv S s) (time : T) :
    Inv S (s.advance time) :=
  ⟨⟨h.wellFormed.states, h.wellFormed.events, h.wellFormed.queue, h.wellFormed.intents⟩, h.cache,
    h.single⟩

theorem queue (h : Inv S s) {queue : List (Request T)}
    (hqueue : ∀ request ∈ queue, HasTurn S request.workflow request.index) :
    Inv S { s with queue := queue } :=
  ⟨⟨h.wellFormed.states, h.wellFormed.events, hqueue, h.wellFormed.intents⟩, h.cache, h.single⟩

/-- An event other than `finished` is scheduled. -/
theorem event [LinearOrder T] (h : Inv S s) (action : Action T κ) (haction : ActionOk S s.intents action)
    (hjob : ∀ job, action ≠ .finished job) (time : T) : Inv S (s.event time action) := by
  have hnone : (Event.mk time (s.serial + 1) action).job? = none := by
    unfold Event.job?
    cases action with
    | finished job => exact absurd rfl (hjob job)
    | _ => rfl
  have hjobs : jobs (s.event time action).events = jobs s.events := jobs_push_of_none hnone s.events
  refine ⟨⟨h.wellFormed.states, fun e he => ?_, h.wellFormed.queue, h.wellFormed.intents⟩, ?_, ?_⟩
  · rcases mem_push.1 he with rfl | he
    · exact haction
    · exact h.wellFormed.events e he
  · rw [hjobs]
    exact h.cache
  · rw [hjobs]
    exact h.single

/-- The state of a workflow is written; the workflow stays the same. -/
theorem setState (h : Inv S s) {ident : String} {old : WorkflowState T}
    (hold : s.states.get? ident = some old) (new : WorkflowState T)
    (hnew : new.workflow = old.workflow) :
    Inv S { s with states := s.states.insert ident new } := by
  refine ⟨⟨fun workflow hworkflow => ?_, h.wellFormed.events, h.wellFormed.queue,
    h.wellFormed.intents⟩, h.cache, h.single⟩
  obtain ⟨state, hstate, rfl⟩ := h.wellFormed.states workflow hworkflow
  by_cases heq : ident = state.workflow.id
  · subst heq
    rw [hold] at hstate
    cases hstate
    exact ⟨new, FinMap.get?_insert_self .., hnew⟩
  · exact ⟨state, (FinMap.get?_insert_ne _ _ heq).trans hstate, rfl⟩

theorem setIntent (h : Inv S s) {ident : String} {intent : Intent T κ}
    (hintent : IntentOk S ident intent) :
    Inv S { s with intents := s.intents.insert ident intent } := by
  refine ⟨⟨h.wellFormed.states, fun e he => ?_, h.wellFormed.queue, fun ident' intent' hget => ?_⟩,
    h.cache, h.single⟩
  · refine (h.wellFormed.events e he).mono fun ident' hsome => ?_
    rw [FinMap.get?_insert]
    split
    · rfl
    · exact hsome
  · rw [FinMap.get?_insert] at hget
    split at hget
    · rename_i heq
      cases hget
      exact heq ▸ hintent
    · exact h.wellFormed.intents ident' intent' hget

/-- Cached blocks that are not pending are marked. -/
theorem remark (h : Inv S s) (mark : Mark) {keys : List κ} (hmark : mark ≠ .pending)
    (hkeys : ∀ key ∈ keys, ∃ m, s.cache.get? key = some m ∧ m ≠ .pending) :
    Inv S { s with cache := markAll mark keys s.cache } :=
  ⟨⟨h.wellFormed.states, h.wellFormed.events, h.wellFormed.queue, h.wellFormed.intents⟩,
    h.cache.remark hmark hkeys, h.single⟩

/-- The event in front of the heap is popped. -/
theorem pop (h : Inv S s) {event : Event T κ} {events : List (Event T κ)}
    (hevents : s.events = event :: events) (hjob : ∀ job, event.action ≠ .finished job) :
    Inv S { s with events := events } := by
  have hnone : event.job? = none := by
    unfold Event.job?
    cases haction : event.action with
    | finished job => exact absurd haction (hjob job)
    | _ => rfl
  have hjobs : jobs s.events = jobs events := by
    rw [hevents, jobs, List.filterMap_cons_none hnone]
    rfl
  refine ⟨⟨h.wellFormed.states, fun e he => ?_, h.wellFormed.queue, h.wellFormed.intents⟩, ?_, ?_⟩
  · exact h.wellFormed.events e (hevents ▸ List.mem_cons_of_mem _ he)
  · exact hjobs ▸ h.cache
  · exact hjobs ▸ h.single

/-! ## Jobs -/

/-- **A job starts**: `reserve` finds room for its keys. -/
theorem load [LinearOrder T] (h : Inv S s) (hidle : s.busy = false) (job : Job T κ)
    {keys : List κ} (hn : keys.Nodup) (hfit : keys.length ≤ S.workload.cacheBlocks)
    (haction : ActionOk S s.intents (.finished job)) (hkeys : ∀ key ∈ job.keys, key ∈ keys)
    (hcached : ∀ key ∈ keys, key ∉ job.computed → (s.cache.get? key).isSome) :
    ∃ s', s.reserve S keys = some s' ∧ ∀ stats entry time,
      Inv S ((({ s' with stats := stats, busy := true } : Simulation T κ).log entry).event time
        (.finished job)) := by
  obtain ⟨⟨victims, cache⟩, hload⟩ :=
    Option.isSome_iff_exists.1 (Lru.load_isSome Mark.pending s.cache hfit)
  have hnil := h.jobs_eq_nil hidle
  have hcache := h.cache
  rw [hnil] at hcache
  refine ⟨_, congrArg (Option.map _) hload, fun stats entry time => ?_⟩
  have hjobs : ∀ serial, jobs (push ⟨time, serial, .finished job⟩ s.events) = [job] :=
    fun serial => jobs_push_of_some rfl hnil
  refine ⟨⟨h.wellFormed.states, fun e he => ?_, h.wellFormed.queue, h.wellFormed.intents⟩, ?_, ?_⟩
  · rcases mem_push.1 he with rfl | he
    · exact haction
    · exact h.wellFormed.events e he
  · exact (hjobs _).symm ▸ hcache.load hn hload hkeys hcached
  · exact congrArg List.length (hjobs _)

/-- **A job finishes**: its keys are still cached and are marked. -/
theorem complete (h : Inv S s) {event : Event T κ} {events : List (Event T κ)} {job : Job T κ}
    (hevents : s.events = event :: events) (hjob : event.action = .finished job) {mark : Mark}
    (hmark : mark ≠ .pending) :
    Inv S { s with
      events := events
      busy := false
      history := .finished job :: s.history
      cache := markAll mark job.keys s.cache } := by
  have hcons : jobs s.events = job :: jobs events := by
    rw [hevents, jobs, List.filterMap_cons_some (b := job) (by rw [Event.job?, hjob])]
    rfl
  have hlength := h.single
  rw [hcons, List.length_cons] at hlength
  have hnil : jobs events = [] := by
    split at hlength
    · exact List.length_eq_zero_iff.1 (Nat.succ.inj hlength)
    · cases hlength
  have hcache := h.cache
  rw [hcons, hnil] at hcache
  refine ⟨⟨h.wellFormed.states, fun e he => ?_, h.wellFormed.queue, h.wellFormed.intents⟩, ?_, ?_⟩
  · exact h.wellFormed.events e (hevents ▸ List.mem_cons_of_mem _ he)
  · exact hnil.symm ▸ hcache.complete hmark
  · exact congrArg List.length hnil

end Inv

end ReedCode.Headroom
