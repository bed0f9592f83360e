import ReedCode.Headroom.Integrity
import ReedCode.Headroom.Clock
import ReedCode.Lib.StepIntegral

/-!
# The accounts of a run

What the statistics of a run add up to, over exact arithmetic.

* `Balanced` — the compute times against the trace, the prepared blocks against their budget and
  against the blocks that were useful, late or obsolete.
* `Balanced.stepped` — every step of a run keeps the balance.
* `accounts` — the balance and the occupancy of the cache, at every point of a run.
-/

set_option autoImplicit false

universe u

namespace ReedCode.Headroom

/-! ## What is asked of the GPU -/

section Demand

variable {T : Type u} [Zero T] {κ : Type u}

def Workload.turn? (workload : Workload T) (ident : String) (index : Nat) : Option (Turn T) :=
  (workload.workflows.find? (·.id = ident)).bind (·.turns[index]?)

/-- The one workflow of a name is found. -/
theorem Workload.turn?_eq {workload : Workload T} (hdistinct : (workload.workflows.map (·.id)).Nodup)
    {workflow : Workflow T} (hworkflow : workflow ∈ workload.workflows) (index : Nat) :
    workload.turn? workflow.id index = workflow.turns[index]? := by
  have hfind : workload.workflows.find? (·.id = workflow.id) = some workflow := by
    obtain ⟨before, after, heq⟩ := List.append_of_mem hworkflow
    rw [heq, List.map_append, List.map_cons] at hdistinct
    rw [heq, List.find?_append, List.find?_eq_none.2, Option.none_or, List.find?_cons_of_pos]
    · exact decide_eq_true rfl
    · intro other hother hsame
      have hne := List.disjoint_of_nodup_append hdistinct (List.mem_map_of_mem hother)
      exact hne (List.mem_cons.2 (Or.inl (of_decide_eq_true hsame)))
  rw [Workload.turn?, hfind]
  rfl

/-- The turns of a known workflow are the ones the workload gives. -/
theorem WellFormed.turn?_eq [LinearOrder T] {S : Setup T κ} {s : Simulation T κ}
    (h : WellFormed S s) (hw : S.workload.Valid) {ident : String} (hknown : Known S ident)
    {state : WorkflowState T} (hstate : s.states.get? ident = some state) (index : Nat) :
    S.workload.turn? ident index = state.workflow.turns[index]? := by
  obtain ⟨hworkflow, hid⟩ := h.workflow hknown hstate
  rw [← hid]
  exact Workload.turn?_eq hw.distinct hworkflow index

variable [Add T] [Mul T] [NatCast T]

/-- The time a request takes when none of its prompt is cached. -/
def fullCost (workload : Workload T) (turn : Turn T) : T :=
  (turn.promptBlocks.length : T) * workload.prefillBlockMs + turn.decodeMs

/-- What a log entry asks of the GPU: the full cost of a request that starts. -/
def LogEntry.demand (workload : Workload T) : LogEntry T → T
  | .requestStarted ident index _ _ => ((workload.turn? ident index).map (fullCost workload)).getD 0
  | _ => 0

def requestDemand (workload : Workload T) (trace : List (T × LogEntry T)) : T :=
  (trace.map fun entry => entry.2.demand workload).sum

end Demand

/-- The blocks of a running preparation. -/
def Action.preparing {T κ : Type u} : Action T κ → Nat
  | .finished (.speculative _ _ computed) => computed.length
  | _ => 0

/-- The blocks of the preparations whose `finished` event is scheduled. -/
def preparing {T κ : Type u} (events : List (Event T κ)) : Nat :=
  (events.map (·.action.preparing)).sum

theorem preparing_cons {T κ : Type u} (event : Event T κ) (events : List (Event T κ)) :
    preparing (event :: events) = event.action.preparing + preparing events := List.sum_cons

/-! ## The balance -/

section Balance

variable {T : Type u} [CommRing T] [LinearOrder T] {κ : Type u}

/-- The accounts of a run. -/
structure Balanced (S : Setup T κ) (s : Simulation T κ) : Prop where
  demand : s.stats.demandComputeMs = requestDemand S.workload s.trace -
    S.workload.prefillBlockMs *
      (s.stats.ordinaryCachedBlocks + s.stats.usefulSpeculativeBlocks : Nat)
  speculative : s.stats.speculativeComputeMs =
    S.workload.prefillBlockMs * (s.stats.speculativeBlocksComputed : Nat)
  budget : s.stats.speculativeBlocksComputed ≤ S.workload.speculativeBlockBudget
  useful : s.stats.usefulSpeculativeBlocks + s.cache.count isSpeculative + preparing s.events ≤
    s.stats.speculativeBlocksComputed
  obsolete : s.stats.obsoleteBlocksCompleted + preparing s.events ≤
    s.stats.speculativeBlocksComputed
  late : s.stats.lateBlocksCompleted + preparing s.events ≤ s.stats.speculativeBlocksComputed

variable {S : Setup T κ} {s : Simulation T κ}

omit [CommRing T] in
theorem preparing_push (event : Event T κ) (events : List (Event T κ)) :
    preparing (push event events) = event.action.preparing + preparing events := by
  have hperm := (push_perm event events).map fun e : Event T κ => e.action.preparing
  exact hperm.sum_eq.trans List.sum_cons

theorem preparing_schedule : ∀ {entries : List (T × Action T κ)} {s : Simulation T κ},
    (∀ entry ∈ entries, entry.2.preparing = 0) →
      preparing (s.schedule entries).events = preparing s.events
  | [], _, _ => rfl
  | entry :: entries, s, h => by
    rw [List.forall_mem_cons] at h
    have hpush : preparing (s.event entry.1 entry.2).events = preparing s.events := by
      refine (preparing_push _ s.events).trans ?_
      show entry.2.preparing + preparing s.events = preparing s.events
      rw [h.1, Nat.zero_add]
    have hrest : preparing ((s.event entry.1 entry.2).schedule entries).events =
        preparing (s.event entry.1 entry.2).events := preparing_schedule h.2
    exact hrest.trans hpush

omit [LinearOrder T] in
theorem requestDemand_append (workload : Workload T) (trace : List (T × LogEntry T)) (now : T)
    (entry : LogEntry T) : requestDemand workload (trace ++ [(now, entry)]) =
      requestDemand workload trace + entry.demand workload := by
  simp [requestDemand]

namespace Balanced

omit [LinearOrder T] in
/-- The fields the balance does not speak of are free. -/
theorem frame (h : Balanced S s) {s' : Simulation T κ} (hstats : s'.stats = s.stats)
    (hcache : s'.cache = s.cache) (htrace : requestDemand S.workload s'.trace =
      requestDemand S.workload s.trace) (hpreparing : preparing s'.events = preparing s.events) :
    Balanced S s' := by
  obtain ⟨hdemand, hspeculative, hbudget, huseful, hobsolete, hlate⟩ := h
  refine ⟨?_, ?_, ?_, ?_, ?_, ?_⟩
  · rwa [hstats, htrace]
  · rwa [hstats]
  · rwa [hstats]
  · rwa [hstats, hcache, hpreparing]
  · rwa [hstats, hpreparing]
  · rwa [hstats, hpreparing]

omit [LinearOrder T] in
theorem log (h : Balanced S s) {entry : LogEntry T} (hentry : entry.demand S.workload = 0) :
    Balanced S (s.log entry) :=
  h.frame rfl rfl (by rw [Simulation.log, requestDemand_append, hentry, add_zero]) rfl

theorem schedule (h : Balanced S s) {entries : List (T × Action T κ)}
    (hentries : ∀ entry ∈ entries, entry.2.preparing = 0) : Balanced S (s.schedule entries) := by
  have hsame := Simulation.schedule_eq entries s
  refine h.frame ?_ ?_ ?_ (preparing_schedule hentries)
  · rw [hsame]
  · rw [hsame]
  · rw [hsame]

omit [LinearOrder T] in
theorem deactivate (h : Balanced S s) (ident : String) : Balanced S (s.deactivate ident) := by
  rw [deactivate_eq]
  exact h.frame rfl rfl rfl rfl

/-! ## Steps -/

theorem turned (h : Balanced S s) {ident : String} {index : Nat} {s' : Simulation T κ}
    [DecidableEq κ] (hturned : Turned S s ident index s') : Balanced S s' := by
  cases hturned with
  | dead _ _ => exact h
  | first _ _ _ _ =>
    refine h.schedule fun entry hentry => ?_
    rw [List.mem_singleton.1 hentry]
    rfl
  | @wait _ turn _ _ _ _ =>
    have hintent : Balanced S { s with
        intents := s.intents.insert ident (s.newIntent S index turn) } := h.frame rfl rfl rfl rfl
    refine hintent.schedule fun entry hentry => ?_
    rcases List.mem_append.1 hentry with hentry | hentry
    · rcases List.mem_cons.1 hentry with rfl | hentry
      · rfl
      · obtain ⟨update, -, rfl⟩ := List.mem_map.1 hentry
        rfl
    · rw [(mem_wakes hentry).1]
      rfl

end Balanced

variable [DecidableEq κ]

omit [CommRing T] [LinearOrder T] in
theorem count_markAll_le (mark : Mark) : ∀ (keys : List κ) (cache : FinMap κ Mark),
    (markAll mark keys cache).count isSpeculative ≤
      cache.count isSpeculative + if mark = .speculative then keys.length else 0
  | [], cache => Nat.le_add_right _ _
  | key :: keys, cache => by
    have hinsert := FinMap.count_insert_le cache isSpeculative key mark
    have hrest : (markAll mark keys (cache.insert key mark)).count isSpeculative ≤
        (cache.insert key mark).count isSpeculative + if mark = .speculative then keys.length else 0 :=
      count_markAll_le mark keys (cache.insert key mark)
    show (markAll mark keys (cache.insert key mark)).count isSpeculative ≤ _
    by_cases hmark : mark = .speculative
    · simp only [hmark, isSpeculative, decide_true, if_true, List.length_cons] at hinsert hrest ⊢
      omega
    · simp only [hmark, isSpeculative, decide_false, if_false, Bool.false_eq_true] at hinsert hrest ⊢
      omega

/-- A finished preparation is accounted for: its blocks are marked, and they may be late or
obsolete. -/
theorem Balanced.prepared (h : Balanced S s) {event : Event T κ} {events : List (Event T κ)}
    (hevents : s.events = event :: events) {workflow : String} {revision : Nat} {computed : List κ}
    (hjob : event.action = .finished (.speculative workflow revision computed))
    (state : WorkflowState T) (current : Intent T κ) :
    Balanced S (Headroom.prepared { s with events := events } state current workflow revision
      computed) := by
  have hrunning : preparing s.events = computed.length + preparing events := by
    rw [hevents, preparing_cons, hjob]
    rfl
  have hmarked := count_markAll_le .speculative computed s.cache
  rw [if_pos rfl] at hmarked
  obtain ⟨hdemand, hspeculative, hbudget, huseful, hobsolete, hlate⟩ := h
  rw [hrunning] at huseful hobsolete hlate
  refine ⟨?_, hspeculative, hbudget, ?_, ?_, ?_⟩
  · refine hdemand.trans (congrArg (· - _) ?_)
    exact (requestDemand_append .. |>.trans (add_zero _)).symm
  · show s.stats.usefulSpeculativeBlocks + (markAll .speculative computed s.cache).count isSpeculative
      + preparing events ≤ s.stats.speculativeBlocksComputed
    omega
  · show s.stats.obsoleteBlocksCompleted + _ + preparing events ≤ s.stats.speculativeBlocksComputed
    split <;> omega
  · show s.stats.lateBlocksCompleted + _ + preparing events ≤ s.stats.speculativeBlocksComputed
    split <;> omega

omit [LinearOrder T] in
/-- A finished request takes marks away. -/
theorem Balanced.recorded (h : Balanced S s) (state : WorkflowState T) (workflow : String)
    (index : Nat) (keys : List κ) (ready : T) (cached : Nat) :
    Balanced S (Headroom.recorded s state workflow index keys ready cached) := by
  have hmarked := count_markAll_le .ordinary keys s.cache
  rw [if_neg (by decide), Nat.add_zero] at hmarked
  obtain ⟨hdemand, hspeculative, hbudget, huseful, hobsolete, hlate⟩ := h
  refine ⟨?_, hspeculative, hbudget, ?_, hobsolete, hlate⟩
  · refine hdemand.trans (congrArg (· - _) ?_)
    exact (requestDemand_append .. |>.trans (add_zero _)).symm
  · show s.stats.usefulSpeculativeBlocks + (markAll .ordinary keys s.cache).count isSpeculative
      + preparing s.events ≤ s.stats.speculativeBlocksComputed
    omega

theorem Balanced.handled (h : Balanced S s) {event : Event T κ} {events : List (Event T κ)}
    (hevents : s.events = event :: events) {s' : Simulation T κ}
    (hhandled : Handled S { s with events := events } event.action s') : Balanced S s' := by
  have hpop : event.action.preparing = 0 → Balanced S { s with events := events } := fun hnone =>
    h.frame rfl rfl rfl (by rw [hevents, preparing_cons, hnone, Nat.zero_add])
  generalize haction : event.action = action at hhandled hpop
  cases hhandled with
  | wake => exact hpop rfl
  | arrival hturned => exact (hpop rfl).turned hturned
  | deadlineDead _ _ => exact hpop rfl
  | @deadline ident state _ _ =>
    have hset : Balanced S (({ s with events := events } : Simulation T κ).setStatus ident state
        .timeout) := (hpop rfl).frame rfl rfl rfl rfl
    exact (hset.deactivate ident).log rfl
  | readyDead _ _ => exact hpop rfl
  | ready _ _ =>
    refine Balanced.log ?_ rfl
    exact (hpop rfl).frame rfl rfl rfl rfl
  | updateStale _ => exact hpop rfl
  | cancelled _ _ _ _ =>
    refine Balanced.log ?_ rfl
    exact (hpop rfl).frame rfl rfl rfl rfl
  | revised _ _ _ _ =>
    refine Balanced.schedule (Balanced.log ?_ rfl) fun entry hentry => ?_
    · exact (hpop rfl).frame rfl rfl rfl rfl
    · rw [(mem_wakes hentry).1]
      rfl
  | prepared _ _ => exact h.prepared hevents haction _ _
  | requestDead _ _ => exact (hpop rfl).recorded _ _ _ _ _ _
  | @requestLast workflow index keys ready cached state _ _ _ =>
    exact ((hpop rfl).recorded state workflow index keys ready cached).frame rfl rfl rfl rfl
  | @requestNext workflow index keys ready cached state _ _ _ _ hturned =>
    exact ((hpop rfl).recorded state workflow index keys ready cached).turned hturned

omit [LinearOrder T] in
theorem length_chunk (S : Setup T κ) (s : Simulation T κ) (intent : Intent T κ) :
    ((preparationTarget S s intent).drop (cachedPrefix s.cache intent.keys)).length =
      chunk S s intent := by
  have hcached := cachedPrefix_le s.cache intent.keys
  have hchunk : chunk S s intent ≤ intent.keys.length - cachedPrefix s.cache intent.keys :=
    (Nat.min_le_left _ _).trans (Nat.min_le_left _ _)
  rw [preparationTarget, List.length_drop, List.length_take]
  omega

/-- A preparation is charged when it starts. -/
theorem Balanced.preparationStarted (h : Balanced S s) (ident : String) (intent : Intent T κ)
    {victims : List κ} {cache : FinMap κ Mark} (hload : Lru.load S.workload.cacheBlocks .pending
      (preparationTarget S s intent) s.cache = some (victims, cache)) :
    Balanced S (Headroom.preparationStarted S s ident intent victims cache) := by
  have hcount := Lru.count_load_le (p := isSpeculative) (fun _ => rfl) hload
  have hchunk : chunk S s intent ≤
      S.workload.speculativeBlockBudget - s.stats.speculativeBlocksComputed :=
    (Nat.min_le_left _ _).trans (Nat.min_le_right _ _)
  have hrunning : preparing (Headroom.preparationStarted S s ident intent victims cache).events =
      chunk S s intent + preparing s.events :=
    (preparing_push _ s.events).trans (congrArg (· + _) (length_chunk S s intent))
  obtain ⟨hdemand, hspeculative, hbudget, huseful, hobsolete, hlate⟩ := h
  refine ⟨?_, ?_, ?_, ?_, ?_, ?_⟩
  · refine hdemand.trans (congrArg (· - _) ?_)
    exact (requestDemand_append .. |>.trans (add_zero _)).symm
  · show s.stats.speculativeComputeMs + (chunk S s intent : T) * S.workload.prefillBlockMs =
      S.workload.prefillBlockMs * ((s.stats.speculativeBlocksComputed + chunk S s intent : Nat) : T)
    rw [hspeculative]
    push_cast
    ring
  · show s.stats.speculativeBlocksComputed + chunk S s intent ≤ S.workload.speculativeBlockBudget
    omega
  · rw [hrunning]
    show s.stats.usefulSpeculativeBlocks + cache.count isSpeculative + _ ≤
      s.stats.speculativeBlocksComputed + chunk S s intent
    omega
  · rw [hrunning]
    show s.stats.obsoleteBlocksCompleted + _ ≤ s.stats.speculativeBlocksComputed + chunk S s intent
    omega
  · rw [hrunning]
    show s.stats.lateBlocksCompleted + _ ≤ s.stats.speculativeBlocksComputed + chunk S s intent
    omega

theorem Balanced.dispatched (h : Balanced S s) (hs : Orderly S s) (hw : S.workload.Valid)
    {s' : Simulation T κ} (hdispatched : Dispatched S s s') : Balanced S s' := by
  have hsearched : ∀ skipped, Balanced S (searched S s skipped) := fun skipped => by
    have hqueue : Balanced S { s with queue := [] } := h.frame rfl rfl rfl rfl
    refine hqueue.schedule fun entry hentry => ?_
    obtain ⟨e, -, hentry⟩ := List.mem_flatMap.1 hentry
    rw [(mem_wakes hentry).1]
    rfl
  cases hdispatched with
  | busy _ => exact h
  | @request dead rest request state turn useful victims cache _ hqueue _ hstate _ hturn huseful
      hcredit hload =>
    have hmem : request ∈ s.queue := hqueue ▸ List.mem_append_right dead List.mem_cons_self
    have hdemand : (LogEntry.requestStarted request.workflow request.index (requestCost S s turn)
        (creditedBlocks S s turn)).demand S.workload = fullCost S.workload turn := by
      rw [LogEntry.demand, hs.wellFormed.turn?_eq hw (hs.wellFormed.queue _ hmem).known hstate, hturn]
      rfl
    have hcount := Lru.count_load_le (p := isSpeculative) (fun _ => rfl) hload
    have hle : creditedBlocks S s turn ≤ turn.promptBlocks.length :=
      (cachedPrefix_le _ _).trans (le_of_eq (S.digest.length_blockKeys _))
    have hrunning : preparing (requestStarted S s rest request turn useful victims cache).events =
        preparing s.events := (preparing_push _ s.events).trans (Nat.zero_add _)
    refine ⟨?_, h.speculative, h.budget, ?_, hrunning ▸ h.obsolete, hrunning ▸ h.late⟩
    · show s.stats.demandComputeMs + requestCost S s turn = requestDemand S.workload (s.trace ++ _) -
        S.workload.prefillBlockMs * ((s.stats.ordinaryCachedBlocks +
          (creditedBlocks S s turn - useful) + (s.stats.usefulSpeculativeBlocks + useful) : Nat) : T)
      rw [requestDemand_append, hdemand, h.demand, requestCost, fullCost, promptKeys,
        Digest.length_blockKeys]
      push_cast [hle, huseful]
      ring
    · rw [hrunning]
      show s.stats.usefulSpeculativeBlocks + useful + cache.count isSpeculative + _ ≤
        s.stats.speculativeBlocksComputed
      have hbefore := h.useful
      omega
  | idle _ _ _ => exact hsearched _
  | @preparation skipped ident intent victims cache _ _ _ _ hload =>
    refine (hsearched skipped).preparationStarted ident intent ?_
    rw [searched_eq]
    exact hload

/-! ## Runs -/

omit [LinearOrder T] [DecidableEq κ] in
theorem Balanced.advance (h : Balanced S s) (time : T) : Balanced S (s.advance time) :=
  ⟨h.demand, h.speculative, h.budget, h.useful, h.obsolete, h.late⟩

theorem Balanced.stepped (hw : S.workload.Valid) {c c' : Config T κ} (hc : Orderly S c.sim)
    (h : Balanced S c.sim) (hstep : Stepped S c c') : Balanced S c'.sim := by
  cases hstep with
  | enter _ _ => exact h.advance _
  | leave _ => exact h.advance _
  | handle hevents _ hhandled => exact h.handled hevents hhandled
  | dispatch _ hdispatched => exact h.dispatched hc hw hdispatched
  | done => exact h

omit [DecidableEq κ] in
theorem balanced_start (S : Setup T κ) : Balanced S (start S).sim := by
  have hnew : Balanced S (.new : Simulation T κ) :=
    ⟨by simp [Simulation.new, requestDemand], by simp [Simulation.new], Nat.zero_le _,
      Nat.le_refl 0, Nat.le_refl 0, Nat.le_refl 0⟩
  refine List.foldlRecOn S.workload.workflows _ hnew fun s h workflow _ => ?_
  have hstate : Balanced S { s with
      states := s.states.insert workflow.id ⟨workflow, .running, [], none⟩ } :=
    h.frame rfl rfl rfl rfl
  have hentries : ∀ entry ∈ [(workflow.arrivalMs, (Action.arrival workflow.id : Action T κ)),
      (workflow.arrivalMs + S.workload.horizonMs, .deadline workflow.id)],
      entry.2.preparing = 0 := by
    intro entry hentry
    rcases List.mem_cons.1 hentry with rfl | hentry
    · rfl
    · rw [List.mem_singleton.1 hentry]
      rfl
  exact hstate.schedule hentries

theorem Turned.stats {ident : String} {index : Nat} {s' : Simulation T κ}
    (h : Turned S s ident index s') : s'.stats = s.stats := by
  cases h with
  | dead _ _ => rfl
  | first _ _ _ _ => rfl
  | wait _ _ _ _ => rw [Simulation.schedule_eq]

theorem Handled.cacheBlockMs {action : Action T κ} {s' : Simulation T κ}
    (h : Handled S s action s') : s'.stats.cacheBlockMs = s.stats.cacheBlockMs := by
  cases h with
  | arrival hturned => rw [hturned.stats]
  | deadline _ _ =>
    rw [deactivate_eq]
    rfl
  | revised _ _ _ _ =>
    rw [Simulation.schedule_eq]
    rfl
  | requestNext _ _ _ hturned =>
    rw [hturned.stats]
    rfl
  | _ => rfl

theorem Dispatched.cacheBlockMs {s' : Simulation T κ} (h : Dispatched S s s') :
    s'.stats.cacheBlockMs = s.stats.cacheBlockMs := by
  cases h with
  | busy _ => rfl
  | request _ _ _ _ _ _ _ _ _ => rfl
  | idle _ _ _ => rw [searched_eq]
  | preparation _ _ _ _ _ =>
    rw [searched_eq]
    rfl

/-- Time goes on, and the cache is charged for it. -/
theorem Stepped.occupancy {c c' : Config T κ} (hc : OrderlyAt S c) (hstep : Stepped S c c') :
    c.sim.now ≤ c'.sim.now ∧ c'.sim.stats.cacheBlockMs =
      c.sim.stats.cacheBlockMs + (c'.sim.now - c.sim.now) * (c.sim.cache.size : Nat) := by
  have hstay : ∀ {s' : Simulation T κ}, s'.now = c.sim.now →
      s'.stats.cacheBlockMs = c.sim.stats.cacheBlockMs → c.sim.now ≤ s'.now ∧
        s'.stats.cacheBlockMs =
          c.sim.stats.cacheBlockMs + (s'.now - c.sim.now) * (c.sim.cache.size : Nat) := by
    intro s' hnow hcharge
    rw [hnow, hcharge, sub_self, zero_mul, add_zero]
    exact ⟨le_refl _, rfl⟩
  cases hstep with
  | enter hevents _ => exact ⟨hc.sim.future _ (hevents ▸ List.mem_cons_self), rfl⟩
  | leave _ => exact ⟨hc.now_le, rfl⟩
  | handle _ _ hhandled => exact hstay hhandled.now hhandled.cacheBlockMs
  | dispatch _ hdispatched => exact hstay hdispatched.now hdispatched.cacheBlockMs
  | done => exact hstay rfl rfl

end Balance

/-! ## Rational times -/

variable {κ : Type} [DecidableEq κ] {S : Setup ℚ κ}

/-- When each point of a trail was reached, and the size of the cache there. -/
noncomputable def occupancy (trail : List (Config ℚ κ)) : List (ℝ × ℝ) :=
  trail.map fun c => ((c.sim.now : ℝ), (c.sim.cache.size : ℝ))

/-- What is claimed of the statistics of a run that has come through a trail. -/
structure Accounts (S : Setup ℚ κ) (trail : List (Config ℚ κ)) (c : Config ℚ κ) : Prop where
  demand : c.sim.stats.demandComputeMs = requestDemand S.workload c.sim.trace -
    S.workload.prefillBlockMs *
      (c.sim.stats.ordinaryCachedBlocks + c.sim.stats.usefulSpeculativeBlocks : Nat)
  speculative : c.sim.stats.speculativeComputeMs =
    S.workload.prefillBlockMs * (c.sim.stats.speculativeBlocksComputed : Nat)
  budget : c.sim.stats.speculativeBlocksComputed ≤ S.workload.speculativeBlockBudget
  useful : c.sim.stats.usefulSpeculativeBlocks ≤ c.sim.stats.speculativeBlocksComputed
  obsolete : c.sim.stats.obsoleteBlocksCompleted ≤ c.sim.stats.speculativeBlocksComputed
  late : c.sim.stats.lateBlocksCompleted ≤ c.sim.stats.speculativeBlocksComputed
  occupied : (c.sim.stats.cacheBlockMs : ℝ) =
    ∫ t in (0 : ℝ)..c.sim.now, StepIntegral.valueAt (occupancy trail) t
  observed : c.phase = .done → c.sim.now = observationEnd S.workload

/-- What an induction over the trail carries. -/
structure Occupied (trail : List (Config ℚ κ)) (c : Config ℚ κ) : Prop where
  now_nonneg : 0 ≤ c.sim.now
  integrable : IntervalIntegrable (StepIntegral.valueAt (occupancy trail)) MeasureTheory.volume 0
    c.sim.now
  charged : (c.sim.stats.cacheBlockMs : ℝ) =
    ∫ t in (0 : ℝ)..c.sim.now, StepIntegral.valueAt (occupancy trail) t

omit [DecidableEq κ] in
theorem start_now (S : Setup ℚ κ) :
    (start S).sim.now = 0 ∧ (start S).sim.stats.cacheBlockMs = 0 := by
  have hnew : (Simulation.new : Simulation ℚ κ).now = 0 ∧
      (Simulation.new : Simulation ℚ κ).stats.cacheBlockMs = 0 := ⟨rfl, rfl⟩
  have hfold := List.foldlRecOn (motive := fun s : Simulation ℚ κ =>
    s.now = 0 ∧ s.stats.cacheBlockMs = 0) S.workload.workflows
    (Simulation.enter S.workload.horizonMs) hnew fun s h workflow _ => h
  exact hfold

theorem occupied (hw : S.workload.Valid) : ∀ {older : List (Config ℚ κ)} {c : Config ℚ κ},
    Runs.Trail (next S) (start S) (c :: older) → Occupied (c :: older) c
  | _, _, .start => by
    obtain ⟨hnow, hcharge⟩ := start_now S
    have hzero : ((start S).sim.now : ℝ) = 0 := by rw [hnow, Rat.cast_zero]
    refine ⟨hnow.ge, ?_, ?_⟩
    · rw [hzero]
    · rw [hzero, intervalIntegral.integral_same, hcharge, Rat.cast_zero]
  | _, c', .step (s := c) h hnext => by
    have hbefore := occupied hw h
    obtain ⟨hle, hcharge⟩ := (next_stepped hnext).occupancy (Reachable.orderly hw h.reachable)
    have hnow : (0 : ℝ) ≤ c.sim.now := by exact_mod_cast hbefore.now_nonneg
    have htime : (c.sim.now : ℝ) ≤ c'.sim.now := by exact_mod_cast hle
    refine ⟨hbefore.now_nonneg.trans hle, ?_, ?_⟩
    · exact StepIntegral.intervalIntegrable_valueAt_cons hnow htime hbefore.integrable
    · refine Eq.trans ?_
        (StepIntegral.integral_valueAt_cons hnow htime hbefore.integrable).symm
      rw [hcharge]
      push_cast
      exact congrArg (· + _) hbefore.charged

theorem balanced (hw : S.workload.Valid) {c : Config ℚ κ} (hc : Reachable S c) : Balanced S c.sim := by
  have h : Balanced S c.sim ∧ OrderlyAt S c :=
    Runs.Reachable.invariant (P := fun c => Balanced S c.sim ∧ OrderlyAt S c)
      ⟨balanced_start S, orderly_start hw⟩ (fun c c' h hnext =>
        have hstep := next_stepped hnext
        ⟨h.1.stepped hw h.2.sim hstep, h.2.stepped hw hstep⟩) hc
  exact h.1

/-- When both loops are left, the clock shows the end of the observation. -/
theorem observed {c : Config ℚ κ} (hc : Reachable S c) :
    c.phase = .done → c.sim.now = observationEnd S.workload :=
  Runs.Reachable.invariant (P := fun c => c.phase = .done → c.sim.now = observationEnd S.workload)
    (fun h => by cases h) (fun c c' h hnext => by
      cases next_stepped hnext with
      | leave _ => exact fun _ => rfl
      | done => exact h
      | _ => exact fun hphase => by cases hphase) hc

/-- **The accounts of a run** balance at every point: both compute times, the blocks of the
preparations against their budget, and the occupancy of the cache as an integral over time. -/
theorem accounts (hw : validate S.workload = .ok ()) {c : Config ℚ κ} {older : List (Config ℚ κ)}
    (h : Runs.Trail (next S) (start S) (c :: older)) : Accounts S (c :: older) c := by
  have hvalid := validate_eq_ok.1 hw
  have hbalanced := balanced hvalid h.reachable
  refine ⟨hbalanced.demand, hbalanced.speculative, hbalanced.budget, ?_, ?_, ?_,
    (occupied hvalid h).charged, observed h.reachable⟩
  · have := hbalanced.useful
    omega
  · have := hbalanced.obsolete
    omega
  · have := hbalanced.late
    omega

/-! ## A small workload -/

def fractionWorkload : Workload ℚ where
  schemaVersion := 1
  kind := "synthetic_cost_model"
  cacheBlocks := 3
  speculativeBlockBudget := 4
  speculativeChunkBlocks := 1
  prefillBlockMs := 3 / 2
  horizonMs := 20
  workflows := [
    { id := "agent", arrivalMs := 1 / 2, turns := [
      { promptBlocks := ["s", "u"], generatedBlocks := ["g"], decodeMs := 1 },
      { promptBlocks := ["s", "v", "t"], generatedBlocks := [], decodeMs := 1, waitMs := 9,
        intent := ["s", "v"], updates := [⟨3, .prefixBlocks ["s", "u"]⟩] }] }]

def fractionSetup : Setup ℚ (List String) := ⟨pathDigest, fractionWorkload, .eager⟩

/-- A whole run, with a prepared block that a request uses. -/
theorem accounts_fraction : ∃ c older, Runs.Trail (next fractionSetup) (start fractionSetup) (c :: older) ∧
    c.phase = .done ∧ c.sim.stats.usefulSpeculativeBlocks = 1 ∧
      Accounts fractionSetup (c :: older) c := by
  obtain ⟨c, hc⟩ := Option.isSome_iff_exists.1
    (show (Runs.iterate (next fractionSetup) 30 (start fractionSetup)).isSome by decide +kernel)
  have hend : (Runs.iterate (next fractionSetup) 30 (start fractionSetup)).any (fun c =>
      (match c.phase with | .done => true | _ => false) &&
        decide (c.sim.stats.usefulSpeculativeBlocks = 1)) = true := by
    decide +kernel
  obtain ⟨older, htrail⟩ := Runs.Trail.iterate .start hc
  rw [hc, Option.any_some, Bool.and_eq_true, decide_eq_true_eq] at hend
  obtain ⟨hphase, huseful⟩ := hend
  refine ⟨c, older, htrail, ?_, huseful, accounts (by decide +kernel) htrail⟩
  split at hphase
  · assumption
  · cases hphase

end ReedCode.Headroom
