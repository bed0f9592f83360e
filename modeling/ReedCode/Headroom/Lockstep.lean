import ReedCode.Headroom.Steps
import ReedCode.Lib.Noninterference
import Mathlib.Order.UpperLower.CompleteLattice

/-!
# Two runs side by side

Two workloads that differ in blocks, or in what happens late, under one policy.

* `HeapAlike` — two heaps that agree on the times of a lower set; what lies behind is free.
* `Alike` — two states that agree but for what has not come up yet.
* `Alike.handle`, `Alike.dispatch` — **every handler and the dispatch keep two states alike**.
-/

set_option autoImplicit false

universe u

namespace ReedCode.Headroom

variable {T : Type u} [LinearOrder T] [Zero T] {κ : Type u}

/-! ## Heaps -/

/-- The same event, or two updates of one kind that have one content if the first takes effect. -/
inductive EventAlike (seen : LowerSet T) (Took : Nat → Prop) : Event T κ → Event T κ → Prop
  | same {time : T} {n n' : Nat} {action : Action T κ} (hseen : time ∈ seen)
      (hother : action.order ≠ 1) : EventAlike seen Took ⟨time, n, action⟩ ⟨time, n', action⟩
  | update {time : T} {n n' index : Nat} {ident : String} {update update' : Update T}
      (hseen : time ∈ seen) (hcancel : update.change = .cancel ↔ update'.change = .cancel)
      (hcontent : Took n → update.change = update'.change) :
      EventAlike seen Took ⟨time, n, .update ident index update⟩
        ⟨time, n', .update ident index update'⟩

/-- The seen events are alike, one by one. -/
inductive HeapAlike (seen : LowerSet T) (Took : Nat → Prop) :
    List (Event T κ) → List (Event T κ) → Prop
  | hidden {es es' : List (Event T κ)} (h : ∀ e ∈ es, e.time ∉ seen)
      (h' : ∀ e ∈ es', e.time ∉ seen) : HeapAlike seen Took es es'
  | cons {e e' : Event T κ} {es es' : List (Event T κ)} (he : EventAlike seen Took e e')
      (h : HeapAlike seen Took es es') : HeapAlike seen Took (e :: es) (e' :: es')

section Heap

variable {seen : LowerSet T} {Took : Nat → Prop} {e e' : Event T κ} {es es' : List (Event T κ)}

theorem EventAlike.time_eq (h : EventAlike seen Took e e') : e.time = e'.time := by
  cases h <;> rfl

theorem EventAlike.mem_seen (h : EventAlike seen Took e e') : e.time ∈ seen := by
  cases h <;> assumption

theorem EventAlike.order_eq (h : EventAlike seen Took e e') :
    e.action.order = e'.action.order := by
  cases h <;> rfl

theorem lt_of_seen {a b : T} (ha : a ∈ seen) (hb : b ∉ seen) : a < b :=
  lt_of_not_ge fun hle => hb (seen.lower hle ha)

/-- A later event stands behind those of its time and kind. -/
theorem before_iff_of_serial {x : Event T κ} (h : x.serial < e.serial) :
    e.before x ↔ e.time < x.time ∨ e.time = x.time ∧ e.action.order < x.action.order := by
  rw [Event.before]
  refine or_congr_right (and_congr_right fun _ => ?_)
  exact or_iff_left fun hlt => absurd hlt.2 (Nat.lt_asymm h)

theorem push_front (h : ∀ x ∈ es, e.before x) : push e es = e :: es := by
  cases es with
  | nil => rfl
  | cons x es => exact if_pos (h x List.mem_cons_self)

/-- Events that are alike and seen find the same place. -/
theorem HeapAlike.push_seen (he : EventAlike seen Took e e') (h : HeapAlike seen Took es es')
    (hserial : ∀ x ∈ es, x.serial < e.serial) (hserial' : ∀ x ∈ es', x.serial < e'.serial) :
    HeapAlike seen Took (push e es) (push e' es') := by
  induction h with
  | hidden h h' =>
    have hseen' : e'.time ∈ seen := he.time_eq ▸ he.mem_seen
    rw [push_front fun x hx => .inl (lt_of_seen he.mem_seen (h x hx)),
      push_front fun x hx => .inl (lt_of_seen hseen' (h' x hx))]
    exact .cons he (.hidden h h')
  | @cons x x' es es' hx hes ih =>
    rw [List.forall_mem_cons] at hserial hserial'
    have hbefore : e.before x ↔ e'.before x' := by
      rw [before_iff_of_serial hserial.1, before_iff_of_serial hserial'.1, he.time_eq, hx.time_eq,
        he.order_eq, hx.order_eq]
    unfold push
    by_cases hfirst : e.before x
    · rw [if_pos hfirst, if_pos (hbefore.1 hfirst)]
      exact .cons he (.cons hx hes)
    · rw [if_neg hfirst, if_neg fun h => hfirst (hbefore.2 h)]
      exact .cons hx (ih hserial.2 hserial'.2)

theorem not_before_of_hidden {x : Event T κ} (hx : x.time ∈ seen) (he : e.time ∉ seen) :
    ¬ e.before x := by
  have hlt := lt_of_seen hx he
  rintro (h | ⟨h, -⟩)
  · exact lt_asymm h hlt
  · exact hlt.ne' h

/-- An event that is not seen goes behind all that are. -/
theorem HeapAlike.push_left (he : e.time ∉ seen) (h : HeapAlike seen Took es es') :
    HeapAlike seen Took (push e es) es' := by
  induction h with
  | hidden h h' =>
    refine .hidden (fun x hx => ?_) h'
    rcases mem_push.1 hx with rfl | hx
    · exact he
    · exact h x hx
  | cons hx hes ih =>
    rw [push, if_neg (not_before_of_hidden hx.mem_seen he)]
    exact .cons hx ih

theorem HeapAlike.push_right (he : e'.time ∉ seen) (h : HeapAlike seen Took es es') :
    HeapAlike seen Took es (push e' es') := by
  induction h with
  | hidden h h' =>
    refine .hidden h fun x hx => ?_
    rcases mem_push.1 hx with rfl | hx
    · exact he
    · exact h' x hx
  | cons hx hes ih =>
    rw [push, if_neg (not_before_of_hidden (hx.time_eq ▸ hx.mem_seen) he)]
    exact .cons hx ih

end Heap

/-! ## States -/

structure WorkflowAlike (workflow workflow' : Workflow T) : Prop where
  id : workflow.id = workflow'.id
  arrival : workflow.arrivalMs = workflow'.arrivalMs
  turns : List.Forall₂ (fun turn turn' => turn.decodeMs = turn'.decodeMs) workflow.turns
    workflow'.turns

structure StateAlike (state state' : WorkflowState T) : Prop where
  workflow : WorkflowAlike state.workflow state'.workflow
  status : state.status = state'.status
  turns : state.turns = state'.turns
  completion : state.completionMs = state'.completionMs

/-- The time at which an intent is ready may differ where it is not seen. -/
structure IntentAlike (seen : LowerSet T) (intent intent' : Intent T κ) : Prop where
  same : intent' = { intent with readyAt := intent'.readyAt }
  ready : intent.readyAt = intent'.readyAt ∨ intent.readyAt ∉ seen ∧ intent'.readyAt ∉ seen

structure Alike (seen : LowerSet T) (Took : Nat → Prop) (s s' : Simulation T κ) : Prop where
  now : s.now = s'.now
  cache : s.cache = s'.cache
  queue : s.queue = s'.queue
  busy : s.busy = s'.busy
  trace : s.trace = s'.trace
  stats : s.stats = s'.stats
  history : s.history = s'.history
  intents : s.intents.Related (IntentAlike seen) s'.intents
  states : s.states.Related StateAlike s'.states
  events : HeapAlike seen Took s.events s'.events
  serial : ∀ e ∈ s.events, e.serial ≤ s.serial
  serial' : ∀ e ∈ s'.events, e.serial ≤ s'.serial

/-- Both cancel or both revise, at the same time. -/
structure Update.SameKind (update update' : Update T) : Prop where
  at_eq : update.atMs = update'.atMs
  cancel : update.change = .cancel ↔ update'.change = .cancel

/-- The updates of two turns that began at `now`, as far as they are seen. -/
structure UpdatesAlike (seen : LowerSet T) [Add T] (now : T) (us us' : List (Update T)) : Prop where
  left : ∀ (k : Nat) (update : Update T), us[k]? = some update → now + update.atMs ∈ seen →
    ∃ update', us'[k]? = some update' ∧ update.SameKind update'
  right : ∀ (k : Nat) (update' : Update T), us'[k]? = some update' → now + update'.atMs ∈ seen →
    ∃ update, us[k]? = some update ∧ update.SameKind update'

/-- Updates at one place have one content if the first of them takes effect. -/
def SameContents (Took : Nat → Prop) (serial : Nat) (us us' : List (Update T)) : Prop :=
  ∀ (k : Nat) (update update' : Update T), us[k]? = some update → us'[k]? = some update' →
    Took (serial + k) → update.change = update'.change

/-- Two turns that begin at `now`, with the serial number before. -/
structure TurnAlike (seen : LowerSet T) [Add T] (Took : Nat → Prop) (now : T) (serial : Nat)
    (turn turn' : Turn T) : Prop where
  intent : turn.intent = turn'.intent
  wait : turn.waitMs = turn'.waitMs ∨ now + turn.waitMs ∉ seen ∧ now + turn'.waitMs ∉ seen
  updates : UpdatesAlike seen now turn.updates turn'.updates
  contents : SameContents Took (serial + 2) turn.updates turn'.updates

/-! ## Scheduled events -/

section Scheduled

variable {seen : LowerSet T} {Took : Nat → Prop} {s s' : Simulation T κ}

theorem serial_event (hserial : ∀ e ∈ s.events, e.serial ≤ s.serial) (time : T)
    (action : Action T κ) :
    ∀ e ∈ (s.event time action).events, e.serial ≤ (s.event time action).serial := by
  intro e he
  rcases mem_push.1 he with rfl | he
  · exact Nat.le_refl _
  · exact Nat.le_succ_of_le (hserial e he)

namespace Alike

/-- Two events that are alike are scheduled. -/
theorem event_alike (h : Alike seen Took s s') {time : T} {action action' : Action T κ}
    (he : EventAlike seen Took ⟨time, s.serial + 1, action⟩ ⟨time, s'.serial + 1, action'⟩) :
    Alike seen Took (s.event time action) (s'.event time action') :=
  { h with
    events := h.events.push_seen he (fun x hx => Nat.lt_succ_of_le (h.serial x hx))
      fun x hx => Nat.lt_succ_of_le (h.serial' x hx)
    serial := serial_event h.serial time action
    serial' := serial_event h.serial' time action' }

theorem event_left (h : Alike seen Took s s') {time : T} (htime : time ∉ seen)
    (action : Action T κ) : Alike seen Took (s.event time action) s' :=
  { h with
    events := h.events.push_left htime
    serial := serial_event h.serial time action }

theorem event_right (h : Alike seen Took s s') {time : T} (htime : time ∉ seen)
    (action : Action T κ) : Alike seen Took s (s'.event time action) :=
  { h with
    events := h.events.push_right htime
    serial' := serial_event h.serial' time action }

/-- An event is scheduled at one time, or at two that are not seen. -/
theorem event (h : Alike seen Took s s') {time time' : T}
    (htime : time = time' ∨ time ∉ seen ∧ time' ∉ seen) {action : Action T κ}
    (hother : action.order ≠ 1) :
    Alike seen Took (s.event time action) (s'.event time' action) := by
  by_cases hseen : time ∈ seen
  · obtain rfl := htime.resolve_right fun hhidden => hhidden.1 hseen
    exact h.event_alike (.same hseen hother)
  · have hseen' : time' ∉ seen := htime.elim (fun heq => heq ▸ hseen) And.right
    exact (h.event_left hseen action).event_right hseen' action

theorem log (h : Alike seen Took s s') (entry : LogEntry T) :
    Alike seen Took (s.log entry) (s'.log entry) :=
  { h with trace := by rw [Simulation.log, Simulation.log, h.trace, h.now] }

end Alike

variable [Add T]

theorem UpdatesAlike.tail {now : T} {update update' : Update T} {us us' : List (Update T)}
    (h : UpdatesAlike seen now (update :: us) (update' :: us')) : UpdatesAlike seen now us us' :=
  ⟨fun k => h.left (k + 1), fun k => h.right (k + 1)⟩

theorem UpdatesAlike.tail_left {now : T} {update : Update T} {us : List (Update T)}
    (h : UpdatesAlike seen now (update :: us) []) : UpdatesAlike seen now us [] :=
  ⟨fun k => h.left (k + 1), fun k update' hupdate' => by cases hupdate'⟩

theorem UpdatesAlike.tail_right {now : T} {update' : Update T} {us' : List (Update T)}
    (h : UpdatesAlike seen now [] (update' :: us')) : UpdatesAlike seen now [] us' :=
  ⟨fun k update hupdate => (by cases hupdate), fun k => h.right (k + 1)⟩

/-- The updates of two turns are scheduled, each where it stands. -/
theorem Alike.scheduleUpdates {ident : String} {index : Nat} {now : T} :
    ∀ {us us' : List (Update T)} {s s' : Simulation T κ}, Alike seen Took s s' → s.now = now →
      UpdatesAlike seen now us us' → SameContents Took (s.serial + 1) us us' →
        Alike seen Took (s.scheduleUpdates ident index us) (s'.scheduleUpdates ident index us')
  | [], [], _, _, h, _, _, _ => h
  | [], update' :: us', s, s', h, hnow, hus, hcontents => by
    have hhidden : s'.now + update'.atMs ∉ seen := by
      rw [← h.now, hnow]
      intro hseen
      obtain ⟨_, hnone, _⟩ := hus.right 0 update' rfl hseen
      cases hnone
    have hrest : Alike seen Took (s.scheduleUpdates ident index [])
        ((s'.event (s'.now + update'.atMs) (.update ident index update')).scheduleUpdates ident index
          us') :=
      Alike.scheduleUpdates (h.event_right hhidden _) hnow hus.tail_right
        fun k update _ hupdate => by cases hupdate
    exact hrest
  | update :: us, [], s, s', h, hnow, hus, hcontents => by
    have hhidden : s.now + update.atMs ∉ seen := by
      rw [hnow]
      intro hseen
      obtain ⟨_, hnone, _⟩ := hus.left 0 update rfl hseen
      cases hnone
    have hrest : Alike seen Took
        ((s.event (s.now + update.atMs) (.update ident index update)).scheduleUpdates ident index us)
          (s'.scheduleUpdates ident index []) :=
      Alike.scheduleUpdates (h.event_left hhidden _) hnow hus.tail_left
        fun k _ update' _ hupdate' => by cases hupdate'
    exact hrest
  | update :: us, update' :: us', s, s', h, hnow, hus, hcontents => by
    have htail : SameContents Took (s.serial + 1 + 1) us us' := by
      intro k u u' hu hu' htook
      refine hcontents (k + 1) u u' hu hu' ?_
      rwa [Nat.add_right_comm, Nat.add_assoc] at htook
    have hevent : Alike seen Took (s.event (s.now + update.atMs) (.update ident index update))
        (s'.event (s'.now + update'.atMs) (.update ident index update')) := by
      rw [← h.now, hnow]
      by_cases hseen : now + update.atMs ∈ seen
      · obtain ⟨u', hu', hkind⟩ := hus.left 0 update rfl hseen
        cases hu'
        rw [← hkind.at_eq]
        exact h.event_alike (.update hseen hkind.cancel (hcontents 0 update update' rfl rfl))
      · have hseen' : now + update'.atMs ∉ seen := by
          intro hseen'
          obtain ⟨u, hu, hkind⟩ := hus.right 0 update' rfl hseen'
          cases hu
          exact hseen (hkind.at_eq ▸ hseen')
        exact (h.event_left hseen _).event_right hseen' _
    have hrest : Alike seen Took
        ((s.event (s.now + update.atMs) (.update ident index update)).scheduleUpdates ident index us)
        ((s'.event (s'.now + update'.atMs) (.update ident index update')).scheduleUpdates ident index
          us') := Alike.scheduleUpdates hevent hnow hus.tail htail
    exact hrest

end Scheduled

/-! ## Turns -/

/-- Two setups with one digest, policy and parameters, and workflows that differ in blocks, waits and
updates only. -/
structure Peers (S S' : Setup T κ) : Prop where
  digest : S.digest = S'.digest
  policy : S.policy = S'.policy
  cacheBlocks : S.workload.cacheBlocks = S'.workload.cacheBlocks
  budget : S.workload.speculativeBlockBudget = S'.workload.speculativeBlockBudget
  chunk : S.workload.speculativeChunkBlocks = S'.workload.speculativeChunkBlocks
  prefill : S.workload.prefillBlockMs = S'.workload.prefillBlockMs
  horizon : S.workload.horizonMs = S'.workload.horizonMs
  workflows : List.Forall₂ WorkflowAlike S.workload.workflows S'.workload.workflows

section Turns

variable {seen : LowerSet T} {Took : Nat → Prop} {S S' : Setup T κ} {s s' : Simulation T κ}

theorem IntentAlike.eq {intent intent' : Intent T κ} (h : IntentAlike seen intent intent')
    (hready : intent.readyAt = intent'.readyAt) : intent = intent' := by
  rw [h.same, ← hready]

theorem IntentAlike.eq_of_top {intent intent' : Intent T κ} (h : IntentAlike seen intent intent')
    (htop : seen = ⊤) : intent = intent' :=
  h.eq (h.ready.resolve_right fun hhidden => hhidden.1 (htop ▸ LowerSet.mem_top))

theorem Alike.deactivate (h : Alike seen Took s s') (ident : String) :
    Alike seen Took (s.deactivate ident) (s'.deactivate ident) := by
  unfold Simulation.deactivate
  rcases (h.intents.get? ident).cases with ⟨hnone, hnone'⟩ | ⟨intent, intent', hget, hget', halike⟩
  · rw [hnone, hnone']
    exact h
  · rw [hget, hget']
    refine { h with intents := h.intents.insert ident ⟨?_, halike.ready⟩ }
    rw [halike.same]

theorem Alike.setStatus (h : Alike seen Took s s') (ident : String) {state state' : WorkflowState T}
    (hstate : StateAlike state state') (status : Status) :
    Alike seen Took (s.setStatus ident state status) (s'.setStatus ident state' status) :=
  { h with states := h.states.insert ident { hstate with status := rfl } }

variable [Add T]

theorem UpdatesAlike.sameKind {now : T} : ∀ {us us' : List (Update T)},
    UpdatesAlike ⊤ now us us' → List.Forall₂ Update.SameKind us us'
  | [], [], _ => .nil
  | [], update' :: us', h => by
    obtain ⟨_, hnone, _⟩ := h.right 0 update' rfl LowerSet.mem_top
    cases hnone
  | update :: us, [], h => by
    obtain ⟨_, hnone, _⟩ := h.left 0 update rfl LowerSet.mem_top
    cases hnone
  | update :: us, update' :: us', h => by
    obtain ⟨u', hu', hkind⟩ := h.left 0 update rfl LowerSet.mem_top
    cases hu'
    exact .cons hkind h.tail.sameKind

omit [Add T] in
theorem map_atMs_eq {us us' : List (Update T)} (h : List.Forall₂ Update.SameKind us us') :
    us.map (·.atMs) = us'.map (·.atMs) := by
  induction h with
  | nil => rfl
  | cons hu _ ih => rw [List.map_cons, List.map_cons, hu.at_eq, ih]

omit [Add T] in
theorem exists_cancel_iff {us us' : List (Update T)} (h : List.Forall₂ Update.SameKind us us') :
    (∃ update ∈ us, update.change = .cancel) ↔ ∃ update ∈ us', update.change = .cancel := by
  induction h with
  | nil => exact Iff.rfl
  | cons hu _ ih => rw [List.exists_mem_cons_iff, List.exists_mem_cons_iff, hu.cancel, ih]

/-- Two waits that begin leave intents that are alike. -/
theorem newIntent_alike (hp : Peers S S') (hfull : S.policy = .futureTiming → seen = ⊤)
    (hnow : s.now = s'.now) {index serial : Nat} {turn turn' : Turn T}
    (hturn : TurnAlike seen Took s.now serial turn turn') :
    IntentAlike seen (s.newIntent S index turn) (s'.newIntent S' index turn') := by
  refine ⟨?_, ?_⟩
  · by_cases hfuture : S.policy = .futureTiming
    · have hupdates := hturn.updates
      rw [hfull hfuture] at hupdates
      have hkind := hupdates.sameKind
      simp only [Simulation.newIntent, ← hp.policy, ← hp.digest, ← hnow, hturn.intent,
        map_atMs_eq hkind, exists_cancel_iff hkind]
    · simp only [Simulation.newIntent, ← hp.policy, ← hp.digest, ← hnow, hturn.intent, hfuture,
        if_false, false_and]
  · refine hturn.wait.imp (fun hwait => ?_) fun hhidden => ⟨hhidden.1, ?_⟩
    · show s.now + turn.waitMs = s'.now + turn'.waitMs
      rw [hwait, hnow]
    · show s'.now + turn'.waitMs ∉ seen
      rw [← hnow]
      exact hhidden.2

variable [Sub T] [Mul T] [NatCast T] [DecidableEq κ]

omit [Add T] in
theorem Alike.scheduleWakeup (h : Alike seen Took s s') (hp : Peers S S')
    (hfull : S.policy = .futureTiming → seen = ⊤) {intent intent' : Intent T κ}
    (hintent : IntentAlike seen intent intent') :
    Alike seen Took (s.scheduleWakeup S intent) (s'.scheduleWakeup S' intent') := by
  by_cases hfuture : S.policy = .futureTiming
  · obtain rfl := hintent.eq_of_top (hfull hfuture)
    unfold Simulation.scheduleWakeup
    rw [← hp.policy, ← hp.prefill, ← h.cache, ← h.now]
    split
    · dsimp only
      split
      · exact h.event (.inl rfl) (by simp [Action.order])
      · exact h
    · exact h
  · have hfuture' : ¬ S'.policy = .futureTiming := hp.policy ▸ hfuture
    unfold Simulation.scheduleWakeup
    rw [if_neg fun hwake => hfuture hwake.1, if_neg fun hwake => hfuture' hwake.1]
    exact h

/-- A turn that begins in both. -/
theorem Alike.startTurn (h : Alike seen Took s s') (hp : Peers S S')
    (hfull : S.policy = .futureTiming → seen = ⊤) {ident : String} {index : Nat}
    (hturn : ∀ state state', s.states.get? ident = some state →
      s'.states.get? ident = some state' → state.status = .running →
        ∀ turn turn', state.workflow.turns[index]? = some turn →
          state'.workflow.turns[index]? = some turn' →
            TurnAlike seen Took s.now s.serial turn turn') :
    Option.Rel (Alike seen Took) (s.startTurn S ident index) (s'.startTurn S' ident index) := by
  unfold Simulation.startTurn
  rcases (h.states.get? ident).cases with ⟨hnone, hnone'⟩ | ⟨state, state', hget, hget', hstate⟩
  · rw [hnone, hnone']
    exact .none
  · rw [hget, hget']
    simp only [Option.bind_eq_bind, Option.bind_some]
    by_cases hrunning : state.status = .running
    · have hrunning' : state'.status = .running := hstate.status ▸ hrunning
      rw [if_neg (not_not.2 hrunning), if_neg (not_not.2 hrunning')]
      have hturns : Option.Rel (fun turn turn' => turn.decodeMs = turn'.decodeMs)
          state.workflow.turns[index]? state'.workflow.turns[index]? :=
        Option.Rel.getElem? hstate.workflow.turns index
      rcases hturns.cases with ⟨hnone, hnone'⟩ | ⟨turn, turn', hlook, hlook', _⟩
      · rw [hnone, hnone']
        exact .none
      · rw [hlook, hlook']
        simp only [Option.bind_some]
        have halike := hturn state state' hget hget' hrunning turn turn' hlook hlook'
        have hready : Alike seen Took (s.event (s.now + turn.waitMs) (.ready ident index))
            (s'.event (s'.now + turn'.waitMs) (.ready ident index)) := by
          refine h.event ?_ (by simp [Action.order])
          rw [← h.now]
          exact halike.wait.imp_left fun hwait => by rw [hwait]
        split
        · exact .some hready
        · have hintent : IntentAlike seen (s.newIntent S index turn) (s'.newIntent S' index turn') :=
            newIntent_alike hp hfull h.now halike
          refine .some (Alike.scheduleWakeup ?_ hp hfull hintent)
          refine Alike.scheduleUpdates ?_ rfl halike.updates halike.contents
          exact { hready with intents := hready.intents.insert ident hintent }
    · have hrunning' : state'.status ≠ .running := hstate.status ▸ hrunning
      rw [if_pos hrunning, if_pos hrunning']
      exact .some h

end Turns

/-! ## Handlers -/

section Handlers

variable {seen : LowerSet T} {Took : Nat → Prop} {S S' : Setup T κ} {s s' : Simulation T κ}

theorem Alike.handleDeadline (h : Alike seen Took s s') (ident : String) :
    Option.Rel (Alike seen Took) (s.handleDeadline ident) (s'.handleDeadline ident) := by
  unfold Simulation.handleDeadline
  rcases (h.states.get? ident).cases with ⟨hnone, hnone'⟩ | ⟨state, state', hget, hget', hstate⟩
  · rw [hnone, hnone']
    exact .none
  · rw [hget, hget']
    simp only [Option.bind_eq_bind, Option.bind_some, ← hstate.status]
    split
    · exact .some (((h.setStatus ident hstate .timeout).deactivate ident).log _)
    · exact .some h

theorem Alike.handleReady (h : Alike seen Took s s') (ident : String) (index : Nat) :
    Option.Rel (Alike seen Took) (s.handleReady ident index) (s'.handleReady ident index) := by
  unfold Simulation.handleReady
  rcases (h.states.get? ident).cases with ⟨hnone, hnone'⟩ | ⟨state, state', hget, hget', hstate⟩
  · rw [hnone, hnone']
    exact .none
  · rw [hget, hget']
    simp only [Option.bind_eq_bind, Option.bind_some, ← hstate.status]
    split
    · have hidle := h.deactivate ident
      refine .some (Alike.log ?_ _)
      exact { hidle with queue := by rw [hidle.queue, hidle.now] }
    · exact .some h

variable [Add T] [Sub T] [Mul T] [NatCast T] [DecidableEq κ]

/-- An update takes effect: the intent is its own and the workflow runs. -/
def Simulation.Effective (s : Simulation T κ) (ident : String) (index : Nat) : Prop :=
  (∃ intent, s.intents.get? ident = some intent ∧ intent.index = index) ∧ s.Running ident

omit [Add T] in
theorem Alike.handleUpdate (h : Alike seen Took s s') (hp : Peers S S')
    (hfull : S.policy = .futureTiming → seen = ⊤) {ident : String} {index : Nat}
    {update update' : Update T}
    (hcontent : s.Effective ident index → update.change = update'.change) :
    Option.Rel (Alike seen Took) (s.handleUpdate S ident index update)
      (s'.handleUpdate S' ident index update') := by
  unfold Simulation.handleUpdate
  rcases (h.intents.get? ident).cases with ⟨hnone, hnone'⟩ | ⟨intent, intent', hget, hget', hintent⟩
  · rw [hnone, hnone']
    exact .some h
  · rw [hget, hget']
    have hsame : intent.index = intent'.index := by rw [hintent.same]
    simp only
    by_cases hindex : intent.index = index
    · rw [if_neg (not_not.2 hindex), if_neg (not_not.2 (hsame ▸ hindex))]
      rcases (h.states.get? ident).cases with ⟨hnone, hnone'⟩ | ⟨state, state', hst, hst', hstate⟩
      · rw [hnone, hnone']
        exact .none
      · rw [hst, hst']
        simp only [Option.bind_eq_bind, Option.bind_some]
        by_cases hrunning : state.status = .running
        · rw [if_neg (not_not.2 hrunning), if_neg (not_not.2 (hstate.status ▸ hrunning))]
          rw [← hcontent ⟨⟨intent, hget, hindex⟩, state, hst, hrunning⟩]
          have hrevision : intent'.revision = intent.revision := by rw [hintent.same]
          cases update.change with
          | cancel =>
            refine .some (Alike.log (Alike.setStatus ?_ ident hstate .cancelled) _)
            refine { h with intents := h.intents.insert ident ⟨?_, hintent.ready⟩ }
            rw [hintent.same]
          | prefixBlocks blocks =>
            have hrevised : IntentAlike seen
                { intent with
                  revision := intent.revision + 1, keys := S.digest.blockKeys blocks }
                { intent' with
                  revision := intent'.revision + 1, keys := S'.digest.blockKeys blocks } := by
              refine ⟨?_, hintent.ready⟩
              rw [hintent.same, hp.digest]
            refine .some (Alike.scheduleWakeup ?_ hp hfull hrevised)
            have hinserted : Alike seen Took
                { s with intents := s.intents.insert ident { intent with
                  revision := intent.revision + 1, keys := S.digest.blockKeys blocks } }
                { s' with intents := s'.intents.insert ident { intent' with
                  revision := intent'.revision + 1, keys := S'.digest.blockKeys blocks } } :=
              { h with intents := h.intents.insert ident hrevised }
            simpa only [hrevision] using hinserted.log (.revision ident (intent.revision + 1))
        · rw [if_pos hrunning, if_pos (hstate.status ▸ hrunning)]
          exact .some h
    · rw [if_pos hindex, if_pos (hsame ▸ hindex)]
      exact .some h

omit [Add T] [Sub T] [Mul T] [NatCast T] [DecidableEq κ] in
/-- Whether a preparation is late is seen when it finishes. -/
theorem IntentAlike.late_iff {intent intent' : Intent T κ} (h : IntentAlike seen intent intent')
    {now : T} (hnow : now ∈ seen) : intent.readyAt < now ↔ intent'.readyAt < now := by
  rcases h.ready with heq | ⟨hhidden, hhidden'⟩
  · rw [heq]
  · exact iff_of_false (lt_of_seen hnow hhidden).asymm (lt_of_seen hnow hhidden').asymm

omit [Add T] [Sub T] [Mul T] [NatCast T] in
theorem Alike.finishPreparation (h : Alike seen Took s s') (hnow : s.now ∈ seen)
    (workflow : String) (revision : Nat) (computed : List κ) :
    Option.Rel (Alike seen Took) (s.finishPreparation workflow revision computed)
      (s'.finishPreparation workflow revision computed) := by
  unfold Simulation.finishPreparation
  rcases (h.intents.get? workflow).cases with ⟨hnone, hnone'⟩ | ⟨intent, intent', hget, hget', hintent⟩
  · rw [hnone, hnone']
    exact .none
  · rw [hget, hget']
    simp only [Option.bind_eq_bind, Option.bind_some]
    rcases (h.states.get? workflow).cases with ⟨hnone, hnone'⟩ | ⟨state, state', hst, hst', hstate⟩
    · rw [hnone, hnone']
      exact .none
    · rw [hst, hst']
      have hrevision : intent'.revision = intent.revision := by rw [hintent.same]
      have hlate := hintent.late_iff hnow
      rw [h.now] at hlate
      simp only [Option.bind_some, ← hstate.status, hrevision, h.stats, h.cache, h.now, hlate]
      refine .some (Alike.log ?_ _)
      exact { h with cache := rfl, stats := rfl, now := rfl }

/-- The turn that an action may begin. -/
inductive Action.Begins : Action T κ → String → Nat → Prop
  | arrival {ident : String} : Action.Begins (.arrival ident) ident 0
  | finished {workflow : String} {index : Nat} {keys : List κ} {ready : T} {cached : Nat} :
      Action.Begins (.finished (.demand workflow index keys ready cached)) workflow (index + 1)

/-- The turns of a workflow that runs in both. -/
def TurnsAgree (s s' : Simulation T κ) (ident : String) (index : Nat)
    (R : Turn T → Turn T → Prop) : Prop :=
  ∀ state state', s.states.get? ident = some state → s'.states.get? ident = some state' →
    state.status = .running → ∀ turn turn', state.workflow.turns[index]? = some turn →
      state'.workflow.turns[index]? = some turn' → R turn turn'

theorem Alike.finishRequest (h : Alike seen Took s s') (hp : Peers S S')
    (hfull : S.policy = .futureTiming → seen = ⊤) {workflow : String} {index : Nat}
    (hturn : TurnsAgree s s' workflow (index + 1) (TurnAlike seen Took s.now s.serial))
    (keys : List κ) (ready : T) (cached : Nat) :
    Option.Rel (Alike seen Took) (s.finishRequest S workflow index keys ready cached)
      (s'.finishRequest S' workflow index keys ready cached) := by
  unfold Simulation.finishRequest
  rcases (h.states.get? workflow).cases with ⟨hnone, hnone'⟩ | ⟨state, state', hget, hget', hstate⟩
  · simp only [hnone, hnone']
    exact .none
  · simp only [hget, hget', Option.bind_eq_bind, Option.bind_some]
    have hrow : StateAlike
        { state with turns := state.turns ++ [⟨index, ready, s.now, cached⟩] }
        { state' with turns := state'.turns ++ [⟨index, ready, s'.now, cached⟩] } :=
      { hstate with turns := by rw [hstate.turns, h.now] }
    have hmarked : Alike seen Took { s with
          cache := markAll .ordinary keys s.cache
          states := s.states.insert workflow
            { state with turns := state.turns ++ [⟨index, ready, s.now, cached⟩] } }
        { s' with
          cache := markAll .ordinary keys s'.cache
          states := s'.states.insert workflow
            { state' with turns := state'.turns ++ [⟨index, ready, s'.now, cached⟩] } } :=
      { h with cache := by rw [h.cache], states := h.states.insert workflow hrow }
    have hlogged := hmarked.log (.requestFinished workflow index)
    have hlength : state.workflow.turns.length = state'.workflow.turns.length :=
      hstate.workflow.turns.length_eq
    by_cases hrunning : state.status = .running
    · rw [if_neg (not_not.2 hrunning), if_neg (not_not.2 (hstate.status ▸ hrunning))]
      by_cases hlast : index + 1 = state.workflow.turns.length
      · rw [if_pos hlast, if_pos (hlength ▸ hlast)]
        refine .some { hlogged with states := hlogged.states.insert workflow ?_ }
        refine { hrow with status := rfl, completion := ?_ }
        show some (s.now - state.workflow.arrivalMs) = some (s'.now - state'.workflow.arrivalMs)
        rw [h.now, hstate.workflow.arrival]
      · rw [if_neg hlast, if_neg (hlength ▸ hlast)]
        refine hlogged.startTurn hp hfull fun first first' hfirst hfirst' _ turn turn' hlook hlook' => ?_
        have hself := (FinMap.get?_insert_self s.states workflow
          { state with turns := state.turns ++ [⟨index, ready, s.now, cached⟩] }).symm.trans hfirst
        have hself' := (FinMap.get?_insert_self s'.states workflow
          { state' with turns := state'.turns ++ [⟨index, ready, s'.now, cached⟩] }).symm.trans hfirst'
        cases hself
        cases hself'
        exact hturn state state' hget hget' hrunning turn turn' hlook hlook'
    · rw [if_pos hrunning, if_pos (hstate.status ▸ hrunning)]
      exact .some hlogged

/-- **A handled event keeps two states alike.** -/
theorem Alike.handle (h : Alike seen Took s s') (hp : Peers S S')
    (hfull : S.policy = .futureTiming → seen = ⊤) (hnow : s.now ∈ seen) {e e' : Event T κ}
    (he : EventAlike seen Took e e')
    (hturn : ∀ ident index, e.action.Begins ident index →
      TurnsAgree s s' ident index (TurnAlike seen Took s.now s.serial))
    (htook : ∀ ident index update, e.action = .update ident index update →
      s.Effective ident index → Took e.serial) :
    Option.Rel (Alike seen Took) (s.handle S e.action) (s'.handle S' e'.action) := by
  cases he with
  | update hseen hcancel hcontent =>
    exact h.handleUpdate hp hfull fun heffective => hcontent (htook _ _ _ rfl heffective)
  | @same time n n' action hseen hother =>
    dsimp only at hturn
    cases action with
    | update ident index update => exact absurd rfl hother
    | arrival ident => exact h.startTurn hp hfull (hturn ident 0 .arrival)
    | deadline ident => exact h.handleDeadline ident
    | ready ident index => exact h.handleReady ident index
    | wake => exact .some h
    | finished job =>
      have hfreed : Alike seen Took
          { s with busy := false, history := .finished job :: s.history }
          { s' with busy := false, history := .finished job :: s'.history } :=
        { h with busy := rfl, history := by rw [h.history] }
      cases job with
      | speculative workflow revision computed =>
        exact hfreed.finishPreparation hnow workflow revision computed
      | demand workflow index keys ready cached =>
        exact hfreed.finishRequest hp hfull (hturn workflow (index + 1) .finished) keys ready cached

end Handlers

/-! ## Dispatch -/

section Dispatch

variable {seen : LowerSet T} {Took : Nat → Prop} {S S' : Setup T κ} {s s' : Simulation T κ}

theorem Alike.popRunning (h : Alike seen Took s s') :
    ∀ queue : List (Request T), s.popRunning queue = s'.popRunning queue
  | [] => rfl
  | request :: queue => by
    unfold Simulation.popRunning
    rcases (h.states.get? request.workflow).cases with
      ⟨hnone, hnone'⟩ | ⟨state, state', hget, hget', hstate⟩
    · rw [hnone, hnone']
      rfl
    · rw [hget, hget']
      simp only [Option.bind_eq_bind, Option.bind_some, ← hstate.status]
      rw [h.popRunning queue]

variable [Add T] [Sub T] [Mul T] [NatCast T] [DecidableEq κ]

omit [Add T] [Sub T] [Mul T] [NatCast T] in
theorem Alike.credit (h : Alike seen Took s s') (key : κ) :
    Alike seen Took (s.credit key) (s'.credit key) := by
  unfold Simulation.credit
  exact { h with
    cache := by rw [h.cache]
    stats := by rw [h.cache, h.stats] }

omit [Add T] [Sub T] [Mul T] [NatCast T] in
theorem Alike.foldl_credit : ∀ (keys : List κ) {s s' : Simulation T κ}, Alike seen Took s s' →
    Alike seen Took (keys.foldl Simulation.credit s) (keys.foldl Simulation.credit s')
  | [], _, _, h => h
  | key :: keys, _, _, h => Alike.foldl_credit keys (h.credit key)

omit [Add T] [Sub T] [Mul T] [NatCast T] in
theorem Alike.reserve (h : Alike seen Took s s') (hp : Peers S S') (keys : List κ) :
    Option.Rel (Alike seen Took) (s.reserve S keys) (s'.reserve S' keys) := by
  unfold Simulation.reserve
  rw [← hp.cacheBlocks, ← h.cache]
  cases Lru.load S.workload.cacheBlocks Mark.pending keys s.cache with
  | none => exact .none
  | some loaded =>
    refine .some { h with cache := rfl, stats := ?_, history := ?_ }
    · rw [h.stats]
    · rw [h.history]

omit [Sub T] in
theorem Alike.startRequest (h : Alike seen Took s s') (hp : Peers S S') {request : Request T}
    (hturn : TurnsAgree s s' request.workflow request.index fun turn turn' =>
      turn.promptBlocks = turn'.promptBlocks ∧ turn.generatedBlocks = turn'.generatedBlocks)
    (hrunning : s.Running request.workflow) :
    Option.Rel (Alike seen Took) (s.startRequest S request) (s'.startRequest S' request) := by
  unfold Simulation.startRequest
  rcases (h.states.get? request.workflow).cases with
    ⟨hnone, hnone'⟩ | ⟨state, state', hget, hget', hstate⟩
  · rw [hnone, hnone']
    exact .none
  · rw [hget, hget']
    simp only [Option.bind_eq_bind, Option.bind_some]
    have hturns : Option.Rel (fun turn turn' => turn.decodeMs = turn'.decodeMs)
        state.workflow.turns[request.index]? state'.workflow.turns[request.index]? :=
      Option.Rel.getElem? hstate.workflow.turns request.index
    rcases hturns.cases with ⟨hnone, hnone'⟩ | ⟨turn, turn', hlook, hlook', hdecode⟩
    · rw [hnone, hnone']
      exact .none
    · rw [hlook, hlook']
      simp only [Option.bind_some]
      obtain ⟨state₁, hget₁, hstatus⟩ := hrunning
      cases hget.symm.trans hget₁
      obtain ⟨hprompt, hgenerated⟩ := hturn state state' hget hget' hstatus turn turn' hlook hlook'
      rw [← hprompt, ← hgenerated, ← hp.digest, ← hp.prefill, ← h.cache, ← hdecode]
      refine Option.Rel.bind (fun s₁ s₁' h₁ => ?_) ((Alike.foldl_credit _ h).reserve hp _)
      have hstarted : Alike seen Took
          { s₁ with
            stats := { s₁.stats with demandComputeMs := s₁.stats.demandComputeMs +
              (((S.digest.blockKeys turn.promptBlocks).length -
                cachedPrefix s.cache (S.digest.blockKeys turn.promptBlocks) : Nat) *
                  S.workload.prefillBlockMs + turn.decodeMs) }
            busy := true }
          { s₁' with
            stats := { s₁'.stats with demandComputeMs := s₁'.stats.demandComputeMs +
              (((S.digest.blockKeys turn.promptBlocks).length -
                cachedPrefix s.cache (S.digest.blockKeys turn.promptBlocks) : Nat) *
                  S.workload.prefillBlockMs + turn.decodeMs) }
            busy := true } :=
        { h₁ with stats := by rw [h₁.stats], busy := rfl }
      refine .some (Alike.event (hstarted.log _) (.inl ?_) (by simp [Action.order]))
      exact congrArg (· + _) h₁.now

omit [Sub T] in
theorem Alike.startPreparation (h : Alike seen Took s s') (hp : Peers S S') (ident : String)
    {intent intent' : Intent T κ} (hintent : IntentAlike seen intent intent') (cached count : Nat) :
    Option.Rel (Alike seen Took) (s.startPreparation S ident intent cached count)
      (s'.startPreparation S' ident intent' cached count) := by
  unfold Simulation.startPreparation
  have hkeys : intent'.keys = intent.keys := by rw [hintent.same]
  have hrevision : intent'.revision = intent.revision := by rw [hintent.same]
  rw [hkeys, hrevision, ← hp.prefill]
  refine Option.Rel.bind (fun s₁ s₁' h₁ => ?_) (h.reserve hp _)
  have hstarted : Alike seen Took
      { s₁ with
        stats := { s₁.stats with
          speculativeBlocksComputed := s₁.stats.speculativeBlocksComputed + count
          speculativeComputeMs := s₁.stats.speculativeComputeMs +
            (count : Nat) * S.workload.prefillBlockMs }
        busy := true }
      { s₁' with
        stats := { s₁'.stats with
          speculativeBlocksComputed := s₁'.stats.speculativeBlocksComputed + count
          speculativeComputeMs := s₁'.stats.speculativeComputeMs +
            (count : Nat) * S.workload.prefillBlockMs }
        busy := true } :=
    { h₁ with stats := by rw [h₁.stats], busy := rfl }
  refine .some (Alike.event (hstarted.log _) (.inl ?_) (by simp [Action.order]))
  exact congrArg (· + _) h₁.now

/-- The loop over the intents. -/
theorem Alike.prepare (hp : Peers S S') (hfull : S.policy = .futureTiming → seen = ⊤)
    (remaining : Nat) {entries entries' : List (String × Intent T κ)}
    (hentries : List.Forall₂ (fun e e' => e.1 = e'.1 ∧ IntentAlike seen e.2 e'.2) entries entries') :
    ∀ {s s' : Simulation T κ}, Alike seen Took s s' → Option.Rel (Alike seen Took)
      (Simulation.prepare S remaining entries s) (Simulation.prepare S' remaining entries' s') := by
  induction hentries with
  | nil => exact fun h => .some h
  | @cons entry entry' entries entries' hentry _ ih =>
    intro s s' h
    obtain ⟨ident, intent⟩ := entry
    obtain ⟨ident', intent'⟩ := entry'
    obtain ⟨hident, hintent⟩ := hentry
    dsimp only at hident hintent
    subst hident
    have hactive : intent'.active = intent.active := by rw [hintent.same]
    have hkeys : intent'.keys = intent.keys := by rw [hintent.same]
    have hcancel : intent'.willCancel = intent.willCancel := by rw [hintent.same]
    have heligible : intent'.eligibleAt = intent.eligibleAt := by rw [hintent.same]
    have hready : S.policy = .futureTiming → intent'.readyAt = intent.readyAt := fun hfuture => by
      rw [hintent.eq_of_top (hfull hfuture)]
    unfold Simulation.prepare
    rw [hactive]
    split
    · exact ih h
    · rcases (h.states.get? ident).cases with ⟨hnone, hnone'⟩ | ⟨state, state', hget, hget', hstate⟩
      · rw [hnone, hnone']
        exact .none
      · rw [hget, hget']
        simp only [Option.bind_eq_bind, Option.bind_some]
        rw [hkeys, hcancel, heligible, ← hstate.status, ← h.cache, ← h.now, ← hp.policy,
          ← hp.prefill, ← hp.chunk]
        by_cases hskip : state.status ≠ .running ∨
            cachedPrefix s.cache intent.keys = intent.keys.length
        · rw [if_pos hskip, if_pos hskip]
          exact ih h
        · rw [if_neg hskip, if_neg hskip]
          by_cases hfuture : S.policy = .futureTiming
          · rw [hready hfuture]
            split
            · exact ih h
            · split
              · exact ih (h.scheduleWakeup hp hfull hintent)
              · exact h.startPreparation hp ident hintent _ _
          · simp only [hfuture, false_and, if_false]
            exact h.startPreparation hp ident hintent _ _

/-- **A dispatch keeps two states alike.** -/
theorem Alike.dispatch (h : Alike seen Took s s') (hp : Peers S S')
    (hfull : S.policy = .futureTiming → seen = ⊤)
    (hturn : ∀ request rest, s.busy = false → s.popRunning s.queue = some (some request, rest) →
      TurnsAgree s s' request.workflow request.index fun turn turn' =>
        turn.promptBlocks = turn'.promptBlocks ∧ turn.generatedBlocks = turn'.generatedBlocks) :
    Option.Rel (Alike seen Took) (s.dispatch S) (s'.dispatch S') := by
  unfold Simulation.dispatch
  rw [← h.busy]
  split
  · exact .some h
  · rename_i hbusy
    have hidle := eq_false_of_ne_true hbusy
    rw [← h.popRunning, ← h.queue]
    cases hpop : s.popRunning s.queue with
    | none => exact .none
    | some popped =>
      obtain ⟨request, rest⟩ := popped
      simp only [Option.bind_eq_bind, Option.bind_some]
      have hrest : Alike seen Took { s with queue := rest }
          { s' with queue := rest, busy := s.busy } := { h with queue := rfl, busy := rfl }
      cases request with
      | some request =>
        have hrunning : s.Running request.workflow := by
          rcases popRunning_eq_some hpop with ⟨hnone, -⟩ | ⟨_, r, hr, -, -, hrunning⟩
          · cases hnone
          · cases hr
            exact hrunning
        dsimp only
        exact hrest.startRequest hp (hturn request rest hidle hpop) hrunning
      | none =>
        have hremaining : S'.workload.speculativeBlockBudget - s'.stats.speculativeBlocksComputed =
            S.workload.speculativeBlockBudget - s.stats.speculativeBlocksComputed := by
          rw [hp.budget, h.stats]
        dsimp only
        rw [hremaining, ← hp.policy]
        split
        · exact .some hrest
        · exact Alike.prepare hp hfull _ h.intents hrest

end Dispatch

end ReedCode.Headroom
