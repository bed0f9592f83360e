import ReedCode.Headroom.Accounting
import ReedCode.Headroom.Integrity
import ReedCode.Headroom.Lockstep

/-!
# No clairvoyance about contents

* `BeginsBy`, `DispatchesBy`, `TookBy` — what a run has revealed by a time.
* `Locked`, `Locked.next` — two runs side by side, and **a step of both**.
* `no_clairvoyance` — **what is revealed by a time determines what happens until then**.
-/

set_option autoImplicit false

universe u

namespace ReedCode.Headroom

variable {T : Type u} [LinearOrder T] [Zero T] [Add T] [Sub T] [Mul T] [NatCast T] {κ : Type u}
  [DecidableEq κ]

/-! ## What is revealed -/

section Revealed

variable (S S' : Setup T κ) (t : T)

/-- A turn of a running workflow begins in the next step. -/
structure BeginsBy (c : Config T κ) (ident : String) (index : Nat) : Prop where
  reachable : Reachable S c
  now_le : c.sim.now ≤ t
  begins : ∃ e, c.handles = some e ∧ e.action.Begins ident index
  running : c.sim.Running ident

/-- A request is dispatched in the next step. -/
structure DispatchesBy (c : Config T κ) (request : Request T) : Prop where
  reachable : Reachable S c
  now_le : c.sim.now ≤ t
  instant : c.phase = .instant c.sim.now
  settled : c.handles = none
  idle : c.sim.busy = false
  popped : ∃ rest, c.sim.popRunning c.sim.queue = some (some request, rest)

/-- The update event with this serial number has taken effect. -/
def TookBy (serial : Nat) : Prop :=
  ∃ (c : Config T κ) (e : Event T κ) (ident : String) (index : Nat) (update : Update T),
    Reachable S c ∧ c.sim.now ≤ t ∧ c.handles = some e ∧ e.serial = serial ∧
      e.action = .update ident index update ∧ c.sim.Effective ident index

/-- Two turns of one place in the workloads. -/
def Paired (ident : String) (index : Nat) (turn turn' : Turn T) : Prop :=
  S.workload.turn? ident index = some turn ∧ S'.workload.turn? ident index = some turn'

/-- The blocks agree wherever the first run reveals them by `t`.  The update at place `k` of a turn
has the serial number behind those of the ready event and of the updates before it. -/
structure ContentsBy : Prop where
  prompts : ∀ c request, DispatchesBy S t c request → ∀ turn turn',
    Paired S S' request.workflow request.index turn turn' →
      turn.promptBlocks = turn'.promptBlocks ∧ turn.generatedBlocks = turn'.generatedBlocks
  intents : ∀ c ident index, BeginsBy S t c ident index → ∀ turn turn',
    Paired S S' ident index turn turn' → turn.intent = turn'.intent
  updates : ∀ c ident index, BeginsBy S t c ident index → ∀ turn turn',
    Paired S S' ident index turn turn' →
      SameContents (TookBy S t) (c.sim.serial + 2) turn.updates turn'.updates

/-- The waits, the times of the updates and the cancellations agree. -/
def SameTiming : Prop :=
  ∀ ident index turn turn', Paired S S' ident index turn turn' →
    turn.waitMs = turn'.waitMs ∧ List.Forall₂ Update.SameKind turn.updates turn'.updates

/-- They agree for all that occurs by `t` in the waits that begin by then. -/
def TimingBy : Prop :=
  ∀ c ident index, BeginsBy S t c ident index → ∀ turn turn', Paired S S' ident index turn turn' →
    (turn.waitMs = turn'.waitMs ∨
      t < c.sim.now + turn.waitMs ∧ t < c.sim.now + turn'.waitMs) ∧
    UpdatesAlike (LowerSet.Iic t) c.sim.now turn.updates turn'.updates

end Revealed

/-! ## The start -/

section Start

variable {seen : LowerSet T} {Took : Nat → Prop} {s s' : Simulation T κ}

omit [Sub T] [Mul T] [NatCast T] [DecidableEq κ] in
theorem Alike.enter (h : Alike seen Took s s') {workflow workflow' : Workflow T}
    (hworkflow : WorkflowAlike workflow workflow') (horizon : T) :
    Alike seen Took (s.enter horizon workflow) (s'.enter horizon workflow') := by
  unfold Simulation.enter
  rw [← hworkflow.id, ← hworkflow.arrival]
  have hstate : Alike seen Took
      { s with states := s.states.insert workflow.id ⟨workflow, .running, [], none⟩ }
      { s' with states := s'.states.insert workflow.id ⟨workflow', .running, [], none⟩ } :=
    { h with states := h.states.insert workflow.id ⟨hworkflow, rfl, rfl, rfl⟩ }
  exact (hstate.event (.inl rfl) (by simp [Action.order])).event (.inl rfl) (by simp [Action.order])

omit [Sub T] [Mul T] [NatCast T] [DecidableEq κ] in
theorem Alike.foldl_enter (horizon : T) {workflows workflows' : List (Workflow T)}
    (hworkflows : List.Forall₂ WorkflowAlike workflows workflows') :
    ∀ {s s' : Simulation T κ}, Alike seen Took s s' →
      Alike seen Took (workflows.foldl (Simulation.enter horizon) s)
        (workflows'.foldl (Simulation.enter horizon) s') := by
  induction hworkflows with
  | nil => exact fun h => h
  | cons hworkflow _ ih => exact fun h => ih (h.enter hworkflow horizon)

omit [Add T] [Sub T] [Mul T] [NatCast T] [DecidableEq κ] in
theorem alike_new (seen : LowerSet T) (Took : Nat → Prop) :
    Alike seen Took (.new : Simulation T κ) .new where
  now := rfl
  cache := rfl
  queue := rfl
  busy := rfl
  trace := rfl
  stats := rfl
  history := rfl
  intents := FinMap.related_empty _
  states := FinMap.related_empty _
  events := .hidden (List.forall_mem_nil _) (List.forall_mem_nil _)
  serial := List.forall_mem_nil _
  serial' := List.forall_mem_nil _

omit [Sub T] [Mul T] [NatCast T] [DecidableEq κ] in
theorem alike_start {S S' : Setup T κ} (hp : Peers S S') :
    Alike seen Took (start S).sim (start S').sim := by
  have hfold := Alike.foldl_enter S.workload.horizonMs hp.workflows (alike_new (κ := κ) seen Took)
  rw [start, start, ← hp.horizon]
  exact hfold

omit [DecidableEq κ] in
theorem Alike.advance (h : Alike seen Took s s') (time : T) :
    Alike seen Took (s.advance time) (s'.advance time) :=
  { h with
    now := rfl
    stats := by
      unfold Simulation.advance
      rw [h.stats, h.now, h.cache] }

end Start

/-! ## A step of both -/

section Step

variable {S S' : Setup T κ} {t : T} {seen : LowerSet T}

/-- Two points of two runs, not behind `t`, that look the same. -/
structure Locked (S S' : Setup T κ) (t : T) (seen : LowerSet T) (c c' : Config T κ) : Prop where
  reachable : Reachable S c
  reachable' : Reachable S' c'
  phase : c.phase = c'.phase
  now_le : c.sim.now ≤ t
  alike : Alike seen (TookBy S t) c.sim c'.sim

/-- What is asked of two workloads: what has been revealed by `t` is alike. -/
structure Agree (S S' : Setup T κ) (t : T) (seen : LowerSet T) : Prop where
  peers : Peers S S'
  full : S.policy = .futureTiming → seen = ⊤
  early : ∀ time ≤ t, time ∈ seen
  prompts : ∀ c request, DispatchesBy S t c request → ∀ turn turn',
    Paired S S' request.workflow request.index turn turn' →
      turn.promptBlocks = turn'.promptBlocks ∧ turn.generatedBlocks = turn'.generatedBlocks
  turns : ∀ c ident index, BeginsBy S t c ident index → ∀ turn turn',
    Paired S S' ident index turn turn' →
      TurnAlike seen (TookBy S t) c.sim.now c.sim.serial turn turn'

/-- Two results of a step: two points that look the same, or two behind `t`. -/
def LockedOrLate (S S' : Setup T κ) (t : T) (seen : LowerSet T) (c c' : Config T κ) : Prop :=
  Locked S S' t seen c c' ∨ ¬ c.sim.now ≤ t ∧ ¬ c'.sim.now ≤ t

omit [LinearOrder T] [Add T] [Sub T] [Mul T] [NatCast T] [DecidableEq κ] in
theorem Peers.known (hp : Peers S S') {ident : String} (h : Known S ident) : Known S' ident := by
  obtain ⟨workflow, hworkflow, rfl⟩ := h
  have hall := hp.workflows
  generalize S.workload.workflows = workflows at hworkflow hall
  have hgo : ∀ {xs ys : List (Workflow T)}, List.Forall₂ WorkflowAlike xs ys → workflow ∈ xs →
      ∃ workflow' ∈ ys, workflow'.id = workflow.id := by
    intro xs ys hxy
    induction hxy with
    | nil => exact fun hmem => by cases hmem
    | @cons x y xs ys hxy _ ih =>
      intro hmem
      rcases List.mem_cons.1 hmem with rfl | hmem
      · exact ⟨y, List.mem_cons_self, hxy.id.symm⟩
      · obtain ⟨workflow', hmem', hid⟩ := ih hmem
        exact ⟨workflow', List.mem_cons_of_mem _ hmem', hid⟩
  exact hgo hall hworkflow

variable [Clock T]

/-- The turns that two states look up are paired. -/
theorem Locked.turnsAgree (hw : S.workload.Valid) (hw' : S'.workload.Valid) (hp : Peers S S')
    {c c' : Config T κ} (h : Locked S S' t seen c c') {ident : String} {index : Nat}
    (hknown : Known S ident) {R : Turn T → Turn T → Prop}
    (hR : c.sim.Running ident → ∀ turn turn', Paired S S' ident index turn turn' → R turn turn') :
    TurnsAgree c.sim c'.sim ident index R := by
  intro state state' hget hget' hrunning turn turn' hlook hlook'
  refine hR ⟨state, hget, hrunning⟩ turn turn' ⟨?_, ?_⟩
  · rw [(h.reachable.orderly hw).sim.wellFormed.turn?_eq hw hknown hget]
    exact hlook
  · rw [(h.reachable'.orderly hw').sim.wellFormed.turn?_eq hw' (hp.known hknown) hget']
    exact hlook'

omit [Clock T] in
theorem Locked.step {c c' d d' : Config T κ} (h : Locked S S' t seen c c')
    (hnext : next S c = some d) (hnext' : next S' c' = some d') (hphase : d.phase = d'.phase)
    (hnow : d.sim.now ≤ t) (halike : Alike seen (TookBy S t) d.sim d'.sim) :
    LockedOrLate S S' t seen d d' :=
  .inl ⟨.step h.reachable hnext, .step h.reachable' hnext', hphase, hnow, halike⟩

/-- Both dispatch. -/
theorem Locked.dispatch (hagree : Agree S S' t seen) (hw : S.workload.Valid)
    (hw' : S'.workload.Valid) {time : T} {s s' : Simulation T κ}
    (h : Locked S S' t seen ⟨.instant time, s⟩ ⟨.instant time, s'⟩)
    (hnone : Config.handles (⟨.instant time, s⟩ : Config T κ) = none)
    (hnext : next S ⟨.instant time, s⟩ = (s.dispatch S).map (⟨.loop, ·⟩))
    (hnext' : next S' ⟨.instant time, s'⟩ = (s'.dispatch S').map (⟨.loop, ·⟩)) :
    Option.Rel (LockedOrLate S S' t seen) (next S ⟨.instant time, s⟩)
      (next S' ⟨.instant time, s'⟩) := by
  have horderly := h.reachable.orderly hw
  have hrel := h.alike.dispatch hagree.peers hagree.full fun request rest hidle hpop => by
    have hmem : request ∈ s.queue := by
      rcases popRunning_eq_some hpop with ⟨hcontra, -⟩ | ⟨dead, r, hr, hqueue, -⟩
      · cases hcontra
      · cases hr
        rw [hqueue]
        exact List.mem_append_right _ List.mem_cons_self
    have hknown := (horderly.sim.wellFormed.queue request hmem).known
    refine h.turnsAgree hw hw' hagree.peers hknown fun _ turn turn' hpaired => ?_
    refine hagree.prompts ⟨.instant time, s⟩ request ⟨h.reachable, h.now_le, ?_, hnone, hidle, rest,
      hpop⟩ turn turn' hpaired
    rw [horderly.instant time rfl]
  cases hd : s.dispatch S with
  | none =>
    rw [hd] at hrel
    cases hd' : s'.dispatch S' with
    | none =>
      rw [hnext, hnext', hd, hd']
      exact .none
    | some s₁' =>
      rw [hd'] at hrel
      cases hrel
  | some s₁ =>
    rw [hd] at hrel
    obtain ⟨s₁', hd', halike⟩ : ∃ s₁', s'.dispatch S' = some s₁' ∧
        Alike seen (TookBy S t) s₁ s₁' := by
      rcases hrel.cases with ⟨hcontra, -⟩ | ⟨a, b, ha, hb, hab⟩
      · cases hcontra
      · cases ha
        exact ⟨b, hb, hab⟩
    have hstep : next S ⟨.instant time, s⟩ = some ⟨.loop, s₁⟩ := by rw [hnext, hd]; rfl
    have hstep' : next S' ⟨.instant time, s'⟩ = some ⟨.loop, s₁'⟩ := by rw [hnext', hd']; rfl
    rw [hstep, hstep']
    exact .some (h.step hstep hstep' rfl ((le_of_eq (dispatch_dispatched hd).now).trans h.now_le) halike)

/-- Both handle an event. -/
theorem Locked.handle (hagree : Agree S S' t seen) (hw : S.workload.Valid)
    (hw' : S'.workload.Valid) {time : T} {s s' : Simulation T κ}
    (h : Locked S S' t seen ⟨.instant time, s⟩ ⟨.instant time, s'⟩) {e e' : Event T κ}
    {es es' : List (Event T κ)} (hevents : s.events = e :: es) (hevents' : s'.events = e' :: es')
    (he : EventAlike seen (TookBy S t) e e') (hes : HeapAlike seen (TookBy S t) es es')
    (htime : e.time = time) :
    Option.Rel (LockedOrLate S S' t seen) (next S ⟨.instant time, s⟩)
      (next S' ⟨.instant time, s'⟩) := by
  have horderly := h.reachable.orderly hw
  have htime' : e'.time = time := he.time_eq ▸ htime
  have hhandles : Config.handles (⟨.instant time, s⟩ : Config T κ) = some e := by
    simp only [Config.handles, hevents, htime, if_true]
  have hnext : next S ⟨.instant time, s⟩ =
      ({ s with events := es }.handle S e.action).map (⟨.instant time, ·⟩) := by
    simp only [next, hevents, htime, if_true]
  have hnext' : next S' ⟨.instant time, s'⟩ =
      ({ s' with events := es' }.handle S' e'.action).map (⟨.instant time, ·⟩) := by
    simp only [next, hevents', htime', if_true]
  have hpopped : Alike seen (TookBy S t) { s with events := es } { s' with events := es' } :=
    { h.alike with
      events := hes
      serial := fun x hx => h.alike.serial x (hevents ▸ List.mem_cons_of_mem _ hx)
      serial' := fun x hx => h.alike.serial' x (hevents' ▸ List.mem_cons_of_mem _ hx) }
  have haction := horderly.sim.wellFormed.events e (hevents ▸ List.mem_cons_self)
  have hrel := hpopped.handle hagree.peers hagree.full (hagree.early s.now h.now_le) he
    (fun ident index hbegins => by
      have hknown : Known S ident := by
        generalize e.action = action at haction hbegins
        cases hbegins with
        | arrival => exact haction.known
        | finished => exact haction.known
      have hturns : TurnsAgree s s' ident index (TurnAlike seen (TookBy S t) s.now s.serial) :=
        h.turnsAgree hw hw' hagree.peers hknown fun hrunning turn turn' hpaired =>
          hagree.turns ⟨.instant time, s⟩ ident index
            ⟨h.reachable, h.now_le, ⟨e, hhandles, hbegins⟩, hrunning⟩ turn turn' hpaired
      exact hturns)
    (fun ident index update hupdate heffective =>
      ⟨⟨.instant time, s⟩, e, ident, index, update, h.reachable, h.now_le, hhandles, rfl, hupdate,
        heffective⟩)
  rcases hrel.cases with ⟨hnone, hnone'⟩ | ⟨s₁, s₁', hsome, hsome', halike⟩
  · rw [hnext, hnext', hnone, hnone']
    exact .none
  · have hstep : next S ⟨.instant time, s⟩ = some ⟨.instant time, s₁⟩ := by
      rw [hnext, hsome]
      rfl
    have hstep' : next S' ⟨.instant time, s'⟩ = some ⟨.instant time, s₁'⟩ := by
      rw [hnext', hsome']
      rfl
    have hnow : s₁.now = s.now := (handle_handled hsome).now
    rw [hstep, hstep']
    exact .some (h.step hstep hstep' rfl ((le_of_eq hnow).trans h.now_le) halike)

omit [LinearOrder T] [Add T] [Sub T] [Mul T] [NatCast T] [Clock T] in
theorem arrivals_eq {workflows workflows' : List (Workflow T)}
    (h : List.Forall₂ WorkflowAlike workflows workflows') :
    workflows.map (·.arrivalMs) = workflows'.map (·.arrivalMs) := by
  induction h with
  | nil => rfl
  | cons h _ ih => rw [List.map_cons, List.map_cons, h.arrival, ih]

omit [Sub T] [Mul T] [NatCast T] [DecidableEq κ] [Clock T] in
theorem Peers.observationEnd (hp : Peers S S') :
    observationEnd S.workload = observationEnd S'.workload := by
  rw [Headroom.observationEnd, Headroom.observationEnd, arrivals_eq hp.workflows, hp.horizon]

omit [Clock T] in
/-- Both go on to one time. -/
theorem Locked.advance {phase : Phase T} {time : T} {s s' : Simulation T κ}
    (h : Locked S S' t seen ⟨.loop, s⟩ ⟨.loop, s'⟩)
    (hnext : next S ⟨.loop, s⟩ = some ⟨phase, s.advance time⟩)
    (hnext' : next S' ⟨.loop, s'⟩ = some ⟨phase, s'.advance time⟩) :
    Option.Rel (LockedOrLate S S' t seen) (next S ⟨.loop, s⟩) (next S' ⟨.loop, s'⟩) := by
  rw [hnext, hnext']
  by_cases htime : time ≤ t
  · exact .some (h.step hnext hnext' rfl htime (h.alike.advance time))
  · exact .some (.inr ⟨htime, htime⟩)

omit [Clock T] [Add T] [Sub T] [Mul T] [NatCast T] [DecidableEq κ] in
theorem handles_of_later {time : T} {s : Simulation T κ} (hlater : ∀ e ∈ s.events, ¬ e.time = time) :
    Config.handles (⟨.instant time, s⟩ : Config T κ) = none := by
  cases hevents : s.events with
  | nil => simp only [Config.handles, hevents]
  | cons e es =>
    simp only [Config.handles, hevents, if_neg (hlater e (hevents ▸ List.mem_cons_self))]

omit [Clock T] in
theorem next_of_later {time : T} {s : Simulation T κ} (hlater : ∀ e ∈ s.events, ¬ e.time = time) :
    next S ⟨.instant time, s⟩ = (s.dispatch S).map (⟨.loop, ·⟩) := by
  cases hevents : s.events with
  | nil => simp only [next, hevents]
  | cons e es => simp only [next, hevents, if_neg (hlater e (hevents ▸ List.mem_cons_self))]

omit [Clock T] in
/-- With nothing on the heap by `t`, the run ends by `t` or goes on behind it. -/
theorem next_of_hidden {s : Simulation T κ} (hhidden : ∀ e ∈ s.events, ¬ e.time ≤ t) :
    (observationEnd S.workload ≤ t →
      next S ⟨.loop, s⟩ = some ⟨.done, s.advance (observationEnd S.workload)⟩) ∧
    (¬ observationEnd S.workload ≤ t → ∃ d, next S ⟨.loop, s⟩ = some d ∧ ¬ d.sim.now ≤ t) := by
  cases hevents : s.events with
  | nil =>
    have hnext : next S ⟨.loop, s⟩ = some ⟨.done, s.advance (observationEnd S.workload)⟩ := by
      simp only [next, hevents]
    exact ⟨fun _ => hnext, fun hlate => ⟨_, hnext, hlate⟩⟩
  | cons e es =>
    have he : ¬ e.time ≤ t := hhidden e (hevents ▸ List.mem_cons_self)
    by_cases htime : e.time ≤ observationEnd S.workload
    · have hnext : next S ⟨.loop, s⟩ = some ⟨.instant e.time, s.advance e.time⟩ := by
        simp only [next, hevents, if_pos htime]
      exact ⟨fun hend => absurd (htime.trans hend) he, fun _ => ⟨_, hnext, he⟩⟩
    · have hnext : next S ⟨.loop, s⟩ = some ⟨.done, s.advance (observationEnd S.workload)⟩ := by
        simp only [next, hevents, if_neg htime]
      exact ⟨fun _ => hnext, fun hlate => ⟨_, hnext, hlate⟩⟩

/-- **A step of both.** -/
theorem Locked.next (hagree : Agree S S' t seen) (hw : S.workload.Valid) (hw' : S'.workload.Valid)
    {c c' : Config T κ} (h : Locked S S' t seen c c') :
    Option.Rel (LockedOrLate S S' t seen) (Headroom.next S c) (Headroom.next S' c') := by
  obtain ⟨phase, s⟩ := c
  obtain ⟨phase', s'⟩ := c'
  obtain rfl : phase = phase' := h.phase
  have hevents := h.alike.events
  have hend := hagree.peers.observationEnd
  dsimp only at hevents
  cases phase with
  | done => exact .some (.inl h)
  | loop =>
    generalize hes : s.events = es at hevents
    generalize hes' : s'.events = es' at hevents
    cases hevents with
    | hidden hhidden hhidden' =>
      have hlater : ∀ e ∈ s.events, ¬ e.time ≤ t := fun e he hle =>
        hhidden e (hes ▸ he) (hagree.early _ hle)
      have hlater' : ∀ e ∈ s'.events, ¬ e.time ≤ t := fun e he hle =>
        hhidden' e (hes' ▸ he) (hagree.early _ hle)
      by_cases htime : Headroom.observationEnd S.workload ≤ t
      · have hnext' := (next_of_hidden (S := S') hlater').1 (hend ▸ htime)
        rw [← hend] at hnext'
        exact h.advance ((next_of_hidden hlater).1 htime) hnext'
      · obtain ⟨d, hnext, hlate⟩ := (next_of_hidden (S := S) hlater).2 htime
        obtain ⟨d', hnext', hlate'⟩ := (next_of_hidden (S := S') hlater').2 (hend ▸ htime)
        rw [hnext, hnext']
        exact .some (.inr ⟨hlate, hlate'⟩)
    | @cons e e' es es' he _ =>
      by_cases htime : e.time ≤ Headroom.observationEnd S.workload
      · have htime' : e'.time ≤ Headroom.observationEnd S'.workload := by
          rw [← he.time_eq, ← hend]
          exact htime
        have hnext : Headroom.next S ⟨.loop, s⟩ = some ⟨.instant e.time, s.advance e.time⟩ := by
          simp only [Headroom.next, hes, if_pos htime]
        have hnext' : Headroom.next S' ⟨.loop, s'⟩ = some ⟨.instant e.time, s'.advance e.time⟩ := by
          simp only [Headroom.next, hes', if_pos htime', he.time_eq]
        exact h.advance hnext hnext'
      · have htime' : ¬ e'.time ≤ Headroom.observationEnd S'.workload := by
          rw [← he.time_eq, ← hend]
          exact htime
        have hnext : Headroom.next S ⟨.loop, s⟩ =
            some ⟨.done, s.advance (Headroom.observationEnd S.workload)⟩ := by
          simp only [Headroom.next, hes, if_neg htime]
        have hnext' : Headroom.next S' ⟨.loop, s'⟩ =
            some ⟨.done, s'.advance (Headroom.observationEnd S.workload)⟩ := by
          simp only [Headroom.next, hes', if_neg htime', hend]
        exact h.advance hnext hnext'
  | instant time =>
    have hnow : s.now = time := (h.reachable.orderly hw).instant time rfl
    have htime : time ≤ t := hnow ▸ h.now_le
    generalize hes : s.events = es at hevents
    generalize hes' : s'.events = es' at hevents
    cases hevents with
    | hidden hhidden hhidden' =>
      have hlater : ∀ e ∈ s.events, ¬ e.time = time := fun e he heq =>
        hhidden e (hes ▸ he) (hagree.early _ (heq ▸ htime))
      have hlater' : ∀ e ∈ s'.events, ¬ e.time = time := fun e he heq =>
        hhidden' e (hes' ▸ he) (hagree.early _ (heq ▸ htime))
      exact h.dispatch hagree hw hw' (handles_of_later hlater) (next_of_later hlater)
        (next_of_later hlater')
    | @cons e e' es es' he hrest =>
      by_cases heq : e.time = time
      · exact h.handle hagree hw hw' hes hes' he hrest heq
      · have heq' : ¬ e'.time = time := he.time_eq ▸ heq
        refine h.dispatch hagree hw hw' ?_ ?_ ?_
        · simp only [Config.handles, hes, if_neg heq]
        · simp only [Headroom.next, hes, if_neg heq]
        · simp only [Headroom.next, hes', if_neg heq']

end Step

/-! ## Both runs -/

section Both

variable {S S' : Setup T κ} {t : T}

/-- What the report of a run tells of a point. -/
structure SameView (c c' : Config T κ) : Prop where
  phase : c.phase = c'.phase
  now : c.sim.now = c'.sim.now
  trace : c.sim.trace = c'.sim.trace
  stats : c.sim.stats = c'.sim.stats
  cache : c.sim.cache = c'.sim.cache

/-- As long as one of two runs has not passed `t`, both look the same, step by step. -/
structure SameUntil (S S' : Setup T κ) (t : T) : Prop where
  forth : ∀ n c, Runs.iterate (next S) n (start S) = some c → c.sim.now ≤ t →
    ∃ c', Runs.iterate (next S') n (start S') = some c' ∧ SameView c c'
  back : ∀ n c', Runs.iterate (next S') n (start S') = some c' → c'.sim.now ≤ t →
    ∃ c, Runs.iterate (next S) n (start S) = some c ∧ SameView c c'

theorem Locked.sameView {seen : LowerSet T} {c c' : Config T κ} (h : Locked S S' t seen c c') :
    SameView c c' :=
  ⟨h.phase, h.alike.now, h.alike.trace, h.alike.stats, h.alike.cache⟩

omit [Zero T] [Sub T] [Mul T] [NatCast T] in
theorem updatesAlike_of_sameKind {seen : LowerSet T} {now : T} {us us' : List (Update T)}
    (h : List.Forall₂ Update.SameKind us us') : UpdatesAlike seen now us us' := by
  constructor
  · intro k update hupdate _
    have hrel : Option.Rel Update.SameKind us[k]? us'[k]? := Option.Rel.getElem? h k
    rcases hrel.cases with ⟨hnone, -⟩ | ⟨a, b, ha, hb, hab⟩
    · cases hnone.symm.trans hupdate
    · cases ha.symm.trans hupdate
      exact ⟨b, hb, hab⟩
  · intro k update' hupdate' _
    have hrel : Option.Rel Update.SameKind us[k]? us'[k]? := Option.Rel.getElem? h k
    rcases hrel.cases with ⟨-, hnone⟩ | ⟨a, b, ha, hb, hab⟩
    · cases hnone.symm.trans hupdate'
    · cases hb.symm.trans hupdate'
      exact ⟨a, ha, hab⟩

/-- With one timing, all times may be seen; without, those by `t`, unless the policy looks ahead. -/
theorem agree (hp : Peers S S') (hcontents : ContentsBy S S' t)
    (htiming : SameTiming S S' ∨ S.policy ≠ .futureTiming ∧ TimingBy S S' t) :
    ∃ seen, Agree S S' t seen := by
  rcases htiming with hsame | ⟨hpolicy, htiming⟩
  · refine ⟨⊤, hp, fun _ => rfl, fun _ _ => LowerSet.mem_top, hcontents.prompts, ?_⟩
    intro c ident index hbegins turn turn' hpaired
    obtain ⟨hwait, hupdates⟩ := hsame ident index turn turn' hpaired
    exact ⟨hcontents.intents c ident index hbegins turn turn' hpaired, .inl hwait,
      updatesAlike_of_sameKind hupdates, hcontents.updates c ident index hbegins turn turn' hpaired⟩
  · refine ⟨LowerSet.Iic t, hp, fun h => absurd h hpolicy, fun _ h => LowerSet.mem_Iic_iff.2 h,
      hcontents.prompts, ?_⟩
    intro c ident index hbegins turn turn' hpaired
    obtain ⟨hwait, hupdates⟩ := htiming c ident index hbegins turn turn' hpaired
    refine ⟨hcontents.intents c ident index hbegins turn turn' hpaired, hwait.imp_right ?_, hupdates,
      hcontents.updates c ident index hbegins turn turn' hpaired⟩
    rintro ⟨hlate, hlate'⟩
    exact ⟨fun h => absurd (LowerSet.mem_Iic_iff.1 h) (not_le.2 hlate),
      fun h => absurd (LowerSet.mem_Iic_iff.1 h) (not_le.2 hlate')⟩

variable [Clock T]

omit [Clock T] in
/-- Time does not run backwards. -/
theorem OrderlyAt.now_mono {c c' : Config T κ} (h : OrderlyAt S c) (hnext : next S c = some c') :
    c.sim.now ≤ c'.sim.now := by
  cases next_stepped hnext with
  | enter hevents _ =>
    exact h.sim.future _ (hevents ▸ List.mem_cons_self)
  | leave _ => exact h.now_le
  | handle _ _ hhandled => exact (le_of_eq hhandled.now.symm)
  | dispatch _ hdispatched => exact (le_of_eq hdispatched.now.symm)
  | done => exact le_refl _

theorem Reachable.start_le (hw : S.workload.Valid) {c : Config T κ} (hc : Reachable S c) :
    (start S).sim.now ≤ c.sim.now := by
  induction hc with
  | start => exact le_refl _
  | step hc hnext ih => exact ih.trans ((Reachable.orderly hw hc).now_mono hnext)

/-- **No clairvoyance about contents.**  Two accepted workloads with the same parameters, workflows,
arrivals and decode times, whose blocks agree wherever one run reveals them by `t`, run alike until
`t`, if the waits, updates and cancellations agree, or, unless the policy looks ahead, if those agree
that occur by `t`. -/
theorem no_clairvoyance (hp : Peers S S') (hvalid : validate S.workload = .ok ())
    (hvalid' : validate S'.workload = .ok ()) (hcontents : ContentsBy S S' t)
    (htiming : SameTiming S S' ∨ S.policy ≠ .futureTiming ∧ TimingBy S S' t) : SameUntil S S' t := by
  have hw := validate_eq_ok.1 hvalid
  have hw' := validate_eq_ok.1 hvalid'
  obtain ⟨seen, hagree⟩ := agree hp hcontents htiming
  have halike : Alike seen (TookBy S t) (start S).sim (start S').sim := alike_start hp
  have hlocked : (start S).sim.now ≤ t → Locked S S' t seen (start S) (start S') := fun hnow =>
    ⟨.start, .start, rfl, hnow, halike⟩
  have hnext : ∀ c c', Locked S S' t seen c c' →
      Option.Rel (LockedOrLate S S' t seen) (next S c) (next S' c') :=
    fun c c' h => h.next hagree hw hw'
  have hswap : ∀ c' c, Locked S S' t seen c c' →
      Option.Rel (fun d' d => Locked S S' t seen d d' ∨ ¬ d'.sim.now ≤ t ∧ ¬ d.sim.now ≤ t)
        (next S' c') (next S c) := by
    intro c' c h
    rcases (hnext c c' h).cases with ⟨hnone, hnone'⟩ | ⟨d, d', hd, hd', hor⟩
    · rw [hnone, hnone']
      exact .none
    · rw [hd, hd']
      exact .some (hor.imp_right And.symm)
  have hback : ∀ c d, Reachable S c → next S c = some d → d.sim.now ≤ t → c.sim.now ≤ t :=
    fun c d hc hd hle => ((Reachable.orderly hw hc).now_mono hd).trans hle
  have hback' : ∀ c d, Reachable S' c → next S' c = some d → d.sim.now ≤ t → c.sim.now ≤ t :=
    fun c d hc hd hle => ((Reachable.orderly hw' hc).now_mono hd).trans hle
  constructor
  · intro n c hn hearly
    have hstart := hlocked ((Reachable.start_le hw (.iterate .start hn)).trans hearly)
    obtain ⟨c', hn', h⟩ := Runs.lockstep hstart hback hnext n c hn hearly
    exact ⟨c', hn', h.sameView⟩
  · intro n c' hn' hearly
    have hle := (Reachable.start_le hw' (.iterate .start hn')).trans hearly
    have hstart := hlocked (halike.now.trans_le hle)
    obtain ⟨c, hn, h⟩ := Runs.lockstep (R := fun c' c => Locked S S' t seen c c') hstart hback' hswap
      n c' hn' hearly
    exact ⟨c, hn, h.sameView⟩

end Both

/-! ## A pair of workloads -/

/-- The sample, with other blocks behind its first wait. -/
def otherWorkload : Workload Int :=
  { sampleWorkload with
    workflows := [
      { id := "agent", turns := [
        { promptBlocks := ["s", "u"], generatedBlocks := ["g"], decodeMs := 1 },
        { promptBlocks := ["s", "x"], generatedBlocks := ["h"], decodeMs := 1, waitMs := 9,
          intent := ["s", "v"], updates := [⟨3, .prefixBlocks ["s", "x", "y"]⟩] }] }] }

def lookaheadSetup : Setup Int (List String) := ⟨pathDigest, sampleWorkload, .futureTiming⟩

def otherSetup : Setup Int (List String) := ⟨pathDigest, otherWorkload, .futureTiming⟩

theorem otherSetup_peers : Peers lookaheadSetup otherSetup where
  digest := rfl
  policy := rfl
  cacheBlocks := rfl
  budget := rfl
  chunk := rfl
  prefill := rfl
  horizon := rfl
  workflows := .cons ⟨rfl, rfl, .cons rfl (.cons rfl .nil)⟩ .nil

/-- The turns of one place in both: the first, which is shared, or the second. -/
theorem paired_other {ident : String} {index : Nat} {turn turn' : Turn Int}
    (h : Paired lookaheadSetup otherSetup ident index turn turn') :
    index = 0 ∧ turn = turn' ∨
      index = 1 ∧ turn.waitMs = turn'.waitMs ∧ turn.intent = turn'.intent ∧
        List.Forall₂ Update.SameKind turn.updates turn'.updates := by
  obtain ⟨hturn, hturn'⟩ := h
  by_cases hident : "agent" = ident
  · subst hident
    match index with
    | 0 =>
      cases hturn
      cases hturn'
      exact .inl ⟨rfl, rfl⟩
    | 1 =>
      cases hturn
      cases hturn'
      exact .inr ⟨rfl, rfl, rfl, .cons ⟨rfl, by simp⟩ .nil⟩
    | _ + 2 => cases hturn
  · have hnone : lookaheadSetup.workload.workflows.find? (·.id = ident) = none := by
      simp [lookaheadSetup, sampleWorkload, hident]
    rw [Workload.turn?, hnone] at hturn
    cases hturn

/-- What the sample does until 7: it starts one request and handles no update. -/
theorem lookahead_early : ∀ n < 8, ∀ c ∈ Runs.iterate (next lookaheadSetup) n (start lookaheadSetup),
    ((c.sim.popRunning c.sim.queue).bind fun popped => popped.1.map (·.index)) ≠ some 1 ∧
      c.handles.map (·.action.order) ≠ some 1 := by
  decide +kernel

/-- The points of the sample by 7. -/
theorem lookahead_by {c : Config Int (List String)} (hc : Reachable lookaheadSetup c)
    (hnow : c.sim.now ≤ 7) :
    ((c.sim.popRunning c.sim.queue).bind fun popped => popped.1.map (·.index)) ≠ some 1 ∧
      c.handles.map (·.action.order) ≠ some 1 := by
  obtain ⟨late, hlate⟩ := Option.isSome_iff_exists.1
    (show (Runs.iterate (next lookaheadSetup) 8 (start lookaheadSetup)).isSome by decide +kernel)
  have htime : (Runs.iterate (next lookaheadSetup) 8 (start lookaheadSetup)).any
      (fun c => decide (c.sim.now ≤ 7)) = false := by decide +kernel
  rw [hlate] at htime
  have hw : lookaheadSetup.workload.Valid := validate_eq_ok.1 sampleWorkload_valid
  have hback : ∀ c d, Reachable lookaheadSetup c → next lookaheadSetup c = some d →
      d.sim.now ≤ 7 → c.sim.now ≤ 7 :=
    fun c d hc hd hle => ((Reachable.orderly hw hc).now_mono hd).trans hle
  obtain ⟨n, hn, hiterate⟩ :=
    Runs.exists_iterate_lt hback hlate (of_decide_eq_false htime) hc hnow
  exact lookahead_early n hn c hiterate

theorem no_clairvoyance_sample :
    (lookaheadSetup.workload.turn? "agent" 1).map (·.promptBlocks) ≠
      (otherSetup.workload.turn? "agent" 1).map (·.promptBlocks) ∧
    SameUntil lookaheadSetup otherSetup 7 := by
  refine ⟨by decide, no_clairvoyance otherSetup_peers sampleWorkload_valid (by decide)
    ⟨?_, ?_, ?_⟩ (.inl ?_)⟩
  · intro c request hdispatches turn turn' hpaired
    rcases paired_other hpaired with ⟨-, rfl⟩ | ⟨hindex, -⟩
    · exact ⟨rfl, rfl⟩
    · obtain ⟨rest, hpop⟩ := hdispatches.popped
      refine absurd ?_ (lookahead_by hdispatches.reachable hdispatches.now_le).1
      rw [hpop, ← hindex]
      rfl
  · intro c ident index _ turn turn' hpaired
    rcases paired_other hpaired with ⟨-, rfl⟩ | ⟨-, -, hintent, -⟩
    · rfl
    · exact hintent
  · intro c ident index _ turn turn' hpaired k update update' _ _ htook
    obtain ⟨c', e, name, place, taken, hc', hnow, hhandles, -, haction, -⟩ := htook
    refine absurd ?_ (lookahead_by hc' hnow).2
    rw [hhandles, Option.map_some, haction]
    rfl
  · intro ident index turn turn' hpaired
    rcases paired_other hpaired with ⟨-, rfl⟩ | ⟨-, hwait, -, hupdates⟩
    · exact ⟨rfl, List.forall₂_same.2 fun _ _ => ⟨rfl, Iff.rfl⟩⟩
    · exact ⟨hwait, hupdates⟩

end ReedCode.Headroom
