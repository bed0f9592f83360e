import ReedCode.Headroom.Steps
import Mathlib.Algebra.Order.Ring.Defs
import Mathlib.Algebra.Order.Monoid.Defs
import Mathlib.Data.Nat.Cast.Order.Ring

/-!
# The order of events

What holds at every point of every run, whatever the block keys are.

* `Clock` — what is asked of the arithmetic of times: a delay does not go back in time.
* `Orderly` — a well-formed state with its events in order, none of them in the past, and one
  `finished` event exactly when the GPU is busy.
* `Reachable.orderly` — every point of a run is orderly.
-/

set_option autoImplicit false

universe u

namespace ReedCode.Headroom

/-- Times add up: exact arithmetic, or one that rounds monotonically. -/
class Clock (T : Type u) [LinearOrder T] [Zero T] [Add T] [Mul T] [NatCast T] : Prop where
  le_add : ∀ {a b : T}, 0 ≤ b → a ≤ a + b
  mul_nonneg : ∀ (n : Nat) {b : T}, 0 ≤ b → 0 ≤ (n : T) * b

instance (T : Type u) [CommRing T] [LinearOrder T] [IsStrictOrderedRing T] : Clock T where
  le_add h := le_add_of_nonneg_right h
  mul_nonneg n _ h := mul_nonneg (Nat.cast_nonneg n) h

variable {T : Type u} [LinearOrder T] {κ : Type u}

/-! ## The heap -/

/-- The job an action finishes. -/
def Action.job? : Action T κ → Option (Job T κ)
  | .finished job => some job
  | _ => none

omit [LinearOrder T] in
theorem Event.job?_eq (event : Event T κ) : event.job? = event.action.job? := by
  unfold Event.job? Action.job?
  cases event.action <;> rfl

theorem Event.before_trans {a b c : Event T κ} (hab : a.before b) (hbc : b.before c) :
    a.before c := by
  rcases hab with hab | ⟨hab, hab'⟩
  · rcases hbc with hbc | ⟨hbc, -⟩
    · exact Or.inl (hab.trans hbc)
    · exact Or.inl (hbc ▸ hab)
  · rcases hbc with hbc | ⟨hbc, hbc'⟩
    · exact Or.inl (hab ▸ hbc)
    · exact Or.inr ⟨hab.trans hbc, by omega⟩

theorem Event.time_le_of_before {a b : Event T κ} (h : a.before b) : a.time ≤ b.time := by
  rcases h with h | ⟨h, -⟩
  · exact h.le
  · exact h.le

/-- Events with different serial numbers are ordered one way or the other. -/
theorem Event.before_of_not {a b : Event T κ} (h : ¬ a.before b) (hserial : b.serial < a.serial) :
    b.before a := by
  unfold Event.before at h ⊢
  rw [not_or, not_lt] at h
  rcases lt_or_eq_of_le h.1 with hlt | heq
  · exact Or.inl hlt
  · refine Or.inr ⟨heq, ?_⟩
    have hnot := not_and.1 h.2 heq.symm
    omega

theorem pairwise_push {event : Event T κ} : ∀ {events : List (Event T κ)},
    (∀ e ∈ events, e.serial < event.serial) → events.Pairwise Event.before →
      (push event events).Pairwise Event.before
  | [], _, _ => List.pairwise_singleton _ _
  | e :: events, hserial, h => by
    rw [List.forall_mem_cons] at hserial
    rw [List.pairwise_cons] at h
    unfold push
    split
    · rename_i hbefore
      refine List.pairwise_cons.2 ⟨fun x hx => ?_, List.pairwise_cons.2 h⟩
      rcases List.mem_cons.1 hx with rfl | hx
      · exact hbefore
      · exact Event.before_trans hbefore (h.1 x hx)
    · rename_i hnot
      refine List.pairwise_cons.2 ⟨fun x hx => ?_, pairwise_push hserial.2 h.2⟩
      rcases mem_push.1 hx with rfl | hx
      · exact Event.before_of_not hnot hserial.1
      · exact h.1 x hx

variable [Zero T] {S : Setup T κ} {s : Simulation T κ}

/-! ## Well-formed states -/

omit [LinearOrder T] in
/-- The state of a known workflow is that of the workflow. -/
theorem WellFormed.workflow (h : WellFormed S s) {ident : String} (hknown : Known S ident)
    {state : WorkflowState T} (hstate : s.states.get? ident = some state) :
    state.workflow ∈ S.workload.workflows ∧ state.workflow.id = ident := by
  obtain ⟨workflow, hworkflow, rfl⟩ := hknown
  obtain ⟨state', hstate', rfl⟩ := h.states workflow hworkflow
  cases hstate.symm.trans hstate'
  exact ⟨hworkflow, rfl⟩

/-- A turn that is looked up is valid. -/
theorem WellFormed.turn (h : WellFormed S s) (hw : S.workload.Valid) {ident : String}
    (hknown : Known S ident) {state : WorkflowState T}
    (hstate : s.states.get? ident = some state) {index : Nat} {turn : Turn T}
    (hturn : state.workflow.turns[index]? = some turn) : turn.Valid S.workload.cacheBlocks index :=
  (hw.workflows _ (h.workflow hknown hstate).1).turns (turn, index)
    (List.mk_mem_zipIdx_iff_getElem?.2 hturn)

omit [LinearOrder T] in
/-- The turn behind one that is not the last. -/
theorem WellFormed.nextTurn (h : WellFormed S s) {workflow : String} {index : Nat}
    (hturn : HasTurn S workflow index) {state : WorkflowState T}
    (hstate : s.states.get? workflow = some state)
    (hmore : index + 1 ≠ state.workflow.turns.length) : HasTurn S workflow (index + 1) := by
  obtain ⟨wf, hwf, rfl, hindex⟩ := hturn
  obtain ⟨state', hstate', rfl⟩ := h.states wf hwf
  cases hstate.symm.trans hstate'
  exact ⟨state.workflow, hwf, rfl, by omega⟩

/-! ## The invariant -/

structure Orderly (S : Setup T κ) (s : Simulation T κ) : Prop where
  wellFormed : WellFormed S s
  single : (jobs s.events).length = if s.busy then 1 else 0
  sorted : s.events.Pairwise Event.before
  serial : ∀ event ∈ s.events, event.serial ≤ s.serial
  future : ∀ event ∈ s.events, s.now ≤ event.time

namespace Orderly

/-- The fields the invariant does not speak of are free. -/
theorem frame (h : Orderly S s) {s' : Simulation T κ} (hnow : s'.now = s.now)
    (hevents : s'.events = s.events) (hserial : s'.serial = s.serial) (hqueue : s'.queue = s.queue)
    (hbusy : s'.busy = s.busy) (hintents : s'.intents = s.intents)
    (hstates : s'.states = s.states) : Orderly S s' := by
  obtain ⟨⟨hs, he, hq, hi⟩, hsingle, hsorted, hser, hfuture⟩ := h
  refine ⟨⟨?_, ?_, ?_, ?_⟩, ?_, ?_, ?_, ?_⟩
  · rwa [hstates]
  · rwa [hevents, hintents]
  · rwa [hqueue]
  · rwa [hintents]
  · rwa [hevents, hbusy]
  · rwa [hevents]
  · rwa [hevents, hserial]
  · rwa [hevents, hnow]

theorem log (h : Orderly S s) (entry : LogEntry T) : Orderly S (s.log entry) :=
  h.frame rfl rfl rfl rfl rfl rfl rfl

theorem queue (h : Orderly S s) {queue : List (Request T)}
    (hqueue : ∀ request ∈ queue, HasTurn S request.workflow request.index) :
    Orderly S { s with queue := queue } :=
  ⟨⟨h.wellFormed.states, h.wellFormed.events, hqueue, h.wellFormed.intents⟩, h.single, h.sorted,
    h.serial, h.future⟩

/-- What scheduling one event keeps, apart from the jobs. -/
theorem event_heap (h : Orderly S s) (action : Action T κ) {time : T} (htime : s.now ≤ time) :
    (s.event time action).events.Pairwise Event.before ∧
      (∀ event ∈ (s.event time action).events, event.serial ≤ (s.event time action).serial) ∧
      ∀ event ∈ (s.event time action).events, s.now ≤ event.time := by
  refine ⟨pairwise_push (fun e he => Nat.lt_succ_of_le (h.serial e he)) h.sorted, fun e he => ?_,
    fun e he => ?_⟩
  · rcases mem_push.1 he with rfl | he
    · exact Nat.le_refl _
    · exact Nat.le_succ_of_le (h.serial e he)
  · rcases mem_push.1 he with rfl | he
    · exact htime
    · exact h.future e he

/-- An event other than `finished` is scheduled. -/
theorem event (h : Orderly S s) {action : Action T κ} (haction : ActionOk S s.intents action)
    (hjob : action.job? = none) {time : T} (htime : s.now ≤ time) :
    Orderly S (s.event time action) := by
  have hnone : (Event.mk time (s.serial + 1) action).job? = none := (Event.job?_eq _).trans hjob
  obtain ⟨hsorted, hserial, hfuture⟩ := h.event_heap action htime
  refine ⟨⟨h.wellFormed.states, fun e he => ?_, h.wellFormed.queue, h.wellFormed.intents⟩, ?_,
    hsorted, hserial, hfuture⟩
  · rcases mem_push.1 he with rfl | he
    · exact haction
    · exact h.wellFormed.events e he
  · exact (congrArg List.length (jobs_push_of_none hnone s.events)).trans h.single

theorem schedule : ∀ {entries : List (T × Action T κ)} {s : Simulation T κ}, Orderly S s →
    (∀ entry ∈ entries, ActionOk S s.intents entry.2 ∧ entry.2.job? = none ∧ s.now ≤ entry.1) → Orderly S (s.schedule entries)
  | [], _, h, _ => h
  | entry :: entries, s, h, hentries => by
    rw [List.forall_mem_cons] at hentries
    obtain ⟨⟨haction, hjob, htime⟩, hrest⟩ := hentries
    have hschedule : Orderly S ((s.event entry.1 entry.2).schedule entries) :=
      schedule (h.event haction hjob htime) hrest
    exact hschedule

/-- A job starts on an idle GPU. -/
theorem startJob (h : Orderly S s) (hidle : s.busy = false) (job : Job T κ)
    (haction : ActionOk S s.intents (.finished job)) {time : T} (htime : s.now ≤ time)
    {s' : Simulation T κ} (hnow : s'.now = s.now) (hevents : s'.events = s.events)
    (hserial : s'.serial = s.serial) (hqueue : s'.queue = s.queue) (hbusy : s'.busy = true)
    (hintents : s'.intents = s.intents) (hstates : s'.states = s.states) :
    Orderly S (s'.event time (.finished job)) := by
  have hnil : jobs s.events = [] := by
    have hsingle := h.single
    rw [hidle] at hsingle
    exact List.length_eq_zero_iff.1 hsingle
  obtain ⟨hsorted, hser, hfuture⟩ := h.event_heap (.finished job) htime
  have hpush : (s'.event time (.finished job)).events = (s.event time (.finished job)).events := by
    rw [Simulation.event, Simulation.event, hevents, hserial]
  refine ⟨⟨?_, ?_, ?_, ?_⟩, ?_, ?_, ?_, ?_⟩
  · change ∀ workflow ∈ _, ∃ state, s'.states.get? _ = _ ∧ _
    rw [hstates]
    exact h.wellFormed.states
  · rw [hpush]
    intro e he
    change ActionOk S s'.intents e.action
    rw [hintents]
    rcases mem_push.1 he with rfl | he
    · exact haction
    · exact h.wellFormed.events e he
  · change ∀ request ∈ s'.queue, _
    rw [hqueue]
    exact h.wellFormed.queue
  · change ∀ ident intent, s'.intents.get? ident = _ → _
    rw [hintents]
    exact h.wellFormed.intents
  · rw [hpush]
    change _ = if s'.busy then 1 else 0
    rw [hbusy]
    exact congrArg List.length (jobs_push_of_some rfl hnil)
  · rwa [hpush]
  · rw [hpush]
    intro e he
    refine (hser e he).trans ?_
    exact Nat.le_of_eq (congrArg (· + 1) hserial.symm)
  · rw [hpush]
    change ∀ event ∈ _, s'.now ≤ _
    rwa [hnow]

/-- The state of a workflow is written; the workflow stays the same. -/
theorem setState (h : Orderly S s) {ident : String} {old : WorkflowState T}
    (hold : s.states.get? ident = some old) (new : WorkflowState T)
    (hnew : new.workflow = old.workflow) :
    Orderly S { s with states := s.states.insert ident new } := by
  refine ⟨⟨fun workflow hworkflow => ?_, h.wellFormed.events, h.wellFormed.queue,
    h.wellFormed.intents⟩, h.single, h.sorted, h.serial, h.future⟩
  obtain ⟨state, hstate, rfl⟩ := h.wellFormed.states workflow hworkflow
  by_cases heq : ident = state.workflow.id
  · subst heq
    rw [hold] at hstate
    cases hstate
    exact ⟨new, FinMap.get?_insert_self .., hnew⟩
  · exact ⟨state, (FinMap.get?_insert_ne _ _ heq).trans hstate, rfl⟩

theorem setIntent (h : Orderly S s) {ident : String} {intent : Intent T κ}
    (hintent : IntentOk S ident intent) :
    Orderly S { s with intents := s.intents.insert ident intent } := by
  refine ⟨⟨h.wellFormed.states, fun e he => ?_, h.wellFormed.queue, fun ident' intent' hget => ?_⟩,
    h.single, h.sorted, h.serial, h.future⟩
  · refine (h.wellFormed.events e he).mono fun ident' hsome => ?_
    rw [FinMap.get?_insert]
    split
    · rfl
    · exact hsome
  · rw [FinMap.get?_insert] at hget
    split at hget
    · rename_i heq
      cases hget
      exact heq ▸ hintent
    · exact h.wellFormed.intents ident' intent' hget

theorem deactivate (h : Orderly S s) (ident : String) : Orderly S (s.deactivate ident) := by
  unfold Simulation.deactivate
  split
  · exact h
  · rename_i intent hintent
    obtain ⟨hknown, hkeys⟩ := h.wellFormed.intents ident intent hintent
    exact h.setIntent ⟨hknown, hkeys⟩

/-- The event in front of the heap is popped; a finished job frees the GPU. -/
theorem pop (h : Orderly S s) {event : Event T κ} {events : List (Event T κ)}
    (hevents : s.events = event :: events) :
    Orderly S { s with events := events, busy := if event.job?.isSome then false else s.busy } := by
  have hmem : ∀ e ∈ events, e ∈ s.events := fun e he => hevents ▸ List.mem_cons_of_mem _ he
  have hsorted := h.sorted
  rw [hevents] at hsorted
  have hsingle := h.single
  refine ⟨⟨h.wellFormed.states, fun e he => h.wellFormed.events e (hmem e he), h.wellFormed.queue,
    h.wellFormed.intents⟩, ?_, hsorted.of_cons, fun e he => h.serial e (hmem e he),
    fun e he => h.future e (hmem e he)⟩
  rw [hevents] at hsingle
  cases hjob : event.job? with
  | none =>
    rw [jobs, List.filterMap_cons_none hjob] at hsingle
    exact hsingle
  | some job =>
    rw [jobs, List.filterMap_cons_some hjob, List.length_cons] at hsingle
    change (jobs events).length = 0
    split at hsingle
    · exact Nat.succ.inj hsingle
    · cases hsingle

end Orderly

/-! ## Steps -/

variable [Add T] [Sub T] [Mul T] [NatCast T] [DecidableEq κ] [Clock T]

theorem Orderly.turned (h : Orderly S s) (hw : S.workload.Valid) {ident : String} {index : Nat}
    (hindex : HasTurn S ident index) {s' : Simulation T κ} (hturned : Turned S s ident index s') :
    Orderly S s' := by
  cases hturned with
  | dead _ _ => exact h
  | first hstate _ hturn _ =>
    have hvalid := h.wellFormed.turn hw hindex.known hstate hturn
    have haction : ActionOk S s.intents (.ready ident index) := hindex
    exact h.event haction rfl (Clock.le_add hvalid.wait_nonneg)
  | @wait _ turn hstate _ hturn _ =>
    have hvalid := h.wellFormed.turn hw hindex.known hstate hturn
    have hfit : ∀ update ∈ turn.updates, update.change.blocks.length ≤ S.workload.cacheBlocks :=
      fun update hupdate =>
        hvalid.candidates_fit _ (List.mem_cons_of_mem _ (List.mem_map_of_mem hupdate))
    have hintent : IntentOk S ident (s.newIntent S index turn) :=
      ⟨hindex.known, turn.intent, rfl, hvalid.candidates_fit _ List.mem_cons_self⟩
    refine (h.setIntent hintent).schedule fun entry hentry => ?_
    rcases List.mem_append.1 hentry with hentry | hentry
    · rcases List.mem_cons.1 hentry with rfl | hentry
      · exact ⟨hindex, rfl, Clock.le_add hvalid.wait_nonneg⟩
      · obtain ⟨update, hupdate, rfl⟩ := List.mem_map.1 hentry
        exact ⟨⟨hindex.known, hfit update hupdate⟩, rfl,
          Clock.le_add (hvalid.updates update hupdate).at_nonneg⟩
    · obtain ⟨hwake, htime, -⟩ := mem_wakes hentry
      rw [hwake]
      exact ⟨trivial, rfl, htime.le⟩

omit [Add T] [Clock T] in
/-- Looking for an intent empties the queue and asks for wake-ups. -/
theorem Orderly.searched (h : Orderly S s) (skipped : List (String × Intent T κ)) :
    Orderly S (searched S s skipped) := by
  refine (h.queue fun _ hr => by cases hr).schedule fun entry hentry => ?_
  obtain ⟨e, -, hentry⟩ := List.mem_flatMap.1 hentry
  obtain ⟨hwake, htime, -⟩ := mem_wakes hentry
  rw [hwake]
  exact ⟨trivial, rfl, htime.le⟩

omit [Add T] [Sub T] [Mul T] [NatCast T] [Clock T] in
theorem Orderly.recorded {workflow : String} {state : WorkflowState T}
    (h : Orderly S { s with busy := false }) (hstate : s.states.get? workflow = some state)
    (index : Nat) (keys : List κ) (ready : T) (cached : Nat) :
    Orderly S (recorded s state workflow index keys ready cached) := by
  have hset := h.setState hstate (state.record s.now index ready cached) rfl
  exact hset.frame rfl rfl rfl rfl rfl rfl rfl

theorem Orderly.handled (h : Orderly S s) (hw : S.workload.Valid) {event : Event T κ}
    {events : List (Event T κ)} (hevents : s.events = event :: events) {s' : Simulation T κ}
    (hhandled : Handled S { s with events := events } event.action s') : Orderly S s' := by
  have haction := h.wellFormed.events event (hevents ▸ List.mem_cons_self)
  have hpop := h.pop hevents
  rw [Event.job?_eq] at hpop
  generalize event.action = action at hhandled haction hpop
  cases hhandled with
  | wake => exact hpop
  | arrival hturned => exact Orderly.turned hpop hw haction hturned
  | deadlineDead _ _ => exact hpop
  | deadline hstate _ =>
    have hset : Orderly S (({ s with events := events } : Simulation T κ).setStatus _ _ .timeout) :=
      hpop.setState hstate _ rfl
    exact (hset.deactivate _).log _
  | readyDead _ _ => exact hpop
  | @ready ident index state hstate _ =>
    have hplain : Orderly S { s with events := events } := hpop
    have hdeactivated := hplain.deactivate ident
    rw [deactivate_eq] at hdeactivated
    have hqueue : ∀ request ∈ s.queue ++ [⟨ident, index, s.now⟩],
        HasTurn S request.workflow request.index := fun request hrequest => by
      rcases List.mem_append.1 hrequest with hrequest | hrequest
      · exact h.wellFormed.queue request hrequest
      · rw [List.mem_singleton.1 hrequest]
        exact haction
    exact (hdeactivated.queue hqueue).log _
  | updateStale _ => exact hpop
  | @cancelled ident update intent state hintent hstate _ _ =>
    have hset : IntentOk S ident { intent with revision := intent.revision + 1, active := false } :=
      ⟨haction.1, (h.wellFormed.intents ident intent hintent).keys⟩
    have hcancelled := Orderly.setIntent hpop hset
    exact (hcancelled.setState hstate { state with status := .cancelled } rfl).log _
  | @revised ident update intent state blocks hintent hstate _ hchange =>
    have hfit : blocks.length ≤ S.workload.cacheBlocks := by
      have := haction.2
      rwa [hchange] at this
    have hset : IntentOk S ident { intent with
        revision := intent.revision + 1, keys := S.digest.blockKeys blocks } :=
      ⟨haction.1, blocks, rfl, hfit⟩
    have hrevised := (Orderly.setIntent hpop hset).log (.revision ident (intent.revision + 1))
    refine Orderly.schedule hrevised fun entry hentry => ?_
    obtain ⟨hwake, htime, -⟩ := mem_wakes hentry
    rw [hwake]
    exact ⟨trivial, rfl, htime.le⟩
  | prepared hintent hstate =>
    exact Orderly.frame hpop rfl rfl rfl rfl rfl rfl rfl
  | requestDead hstate _ => exact Orderly.recorded hpop hstate _ _ _ _
  | @requestLast workflow index keys ready cached state hstate _ _ =>
    have hrecorded := Orderly.recorded hpop hstate index keys ready cached
    exact hrecorded.setState (FinMap.get?_insert_self ..) _ rfl
  | @requestNext workflow index keys ready cached state _ hstate _ hmore hturned =>
    have hrecorded := Orderly.recorded hpop hstate index keys ready cached
    exact hrecorded.turned hw (h.wellFormed.nextTurn haction hstate hmore) hturned

omit [Sub T] [DecidableEq κ] in
theorem cost_nonneg (hw : S.workload.Valid) (blocks : Nat) {turn : Turn T} {index : Nat}
    (hvalid : turn.Valid S.workload.cacheBlocks index) :
    0 ≤ (blocks : T) * S.workload.prefillBlockMs + turn.decodeMs :=
  (Clock.mul_nonneg blocks hw.prefill_pos.le).trans (Clock.le_add hvalid.decode_pos.le)

omit [Add T] [Clock T] in
theorem searched_eq (S : Setup T κ) (s : Simulation T κ) (skipped : List (String × Intent T κ)) :
    searched S s skipped = { s with
      queue := []
      serial := (searched S s skipped).serial
      events := (searched S s skipped).events } :=
  Simulation.schedule_eq _ _

theorem Orderly.dispatched (h : Orderly S s) (hw : S.workload.Valid) {s' : Simulation T κ}
    (hdispatched : Dispatched S s s') : Orderly S s' := by
  cases hdispatched with
  | busy _ => exact h
  | @request dead rest request state turn useful victims cache hidle hqueue _ hstate _ hturn _ _ _ =>
    have hmem : ∀ r ∈ request :: rest, HasTurn S r.workflow r.index := fun r hr =>
      h.wellFormed.queue r (hqueue ▸ List.mem_append_right dead hr)
    have hindex := hmem request List.mem_cons_self
    have hrest := h.queue fun r hr => hmem r (List.mem_cons_of_mem _ hr)
    have hvalid := h.wellFormed.turn hw hindex.known hstate hturn
    exact hrest.startJob hidle (.demand request.workflow request.index (requestKeys S turn)
      request.ready (creditedBlocks S s turn)) hindex (Clock.le_add (cost_nonneg hw _ hvalid))
      rfl rfl rfl rfl rfl rfl rfl
  | idle _ _ _ => exact h.searched _
  | @preparation skipped ident intent victims cache hidle _ _ hpreparable _ =>
    have hsearched := h.searched skipped
    have hok := h.wellFormed.intents ident intent hpreparable.entry
    have hsame := searched_eq S s skipped
    have hsome : ((Headroom.searched S s skipped).intents.get? ident).isSome := by
      rw [hsame]
      exact Option.isSome_iff_exists.2 ⟨intent, hpreparable.entry⟩
    have hidle' : (Headroom.searched S s skipped).busy = false := by
      rw [hsame]
      exact hidle
    exact hsearched.startJob hidle' (.speculative ident intent.revision _) ⟨hok.known, hsome⟩
      (Clock.le_add (Clock.mul_nonneg _ hw.prefill_pos.le)) rfl rfl rfl rfl rfl rfl rfl

/-! ## Time -/

omit [Clock T] in
theorem Turned.now {ident : String} {index : Nat} {s' : Simulation T κ}
    (h : Turned S s ident index s') : s'.now = s.now := by
  cases h with
  | dead _ _ => rfl
  | first _ _ _ _ => rfl
  | wait _ _ _ _ => rw [Simulation.schedule_eq]

omit [Clock T] in
theorem Handled.now {action : Action T κ} {s' : Simulation T κ} (h : Handled S s action s') :
    s'.now = s.now := by
  cases h with
  | arrival hturned => exact hturned.now
  | deadline _ _ => rw [deactivate_eq]; rfl
  | revised _ _ _ _ => rw [Simulation.schedule_eq]; rfl
  | requestNext _ _ _ hturned => exact hturned.now
  | _ => rfl

omit [Clock T] in
theorem Dispatched.now {s' : Simulation T κ} (h : Dispatched S s s') : s'.now = s.now := by
  cases h with
  | busy _ => rfl
  | request _ _ _ _ _ _ _ _ _ => rfl
  | idle _ _ _ => rw [searched_eq]
  | preparation _ _ _ _ _ =>
    rw [searched_eq]
    rfl

omit [DecidableEq κ] [Clock T] in
theorem Orderly.advance (h : Orderly S s) {time : T} (hfuture : ∀ event ∈ s.events, time ≤ event.time) :
    Orderly S (s.advance time) :=
  ⟨⟨h.wellFormed.states, h.wellFormed.events, h.wellFormed.queue, h.wellFormed.intents⟩, h.single,
    h.sorted, h.serial, hfuture⟩

/-- What holds of the points of a run. -/
structure OrderlyAt (S : Setup T κ) (c : Config T κ) : Prop where
  sim : Orderly S c.sim
  instant : ∀ time, c.phase = .instant time → c.sim.now = time
  now_le : c.sim.now ≤ observationEnd S.workload

omit [Sub T] [Mul T] [NatCast T] [DecidableEq κ] [Clock T] in
/-- When no event of the instant is left, all lie in the future. -/
theorem OrderlyAt.settled {c : Config T κ} (h : OrderlyAt S c) {time : T}
    (hphase : c.phase = .instant time) (hlater : ∀ event ∈ c.sim.events.head?, event.time ≠ time) :
    ∀ event ∈ c.sim.events, c.sim.now < event.time := by
  have hnow := h.instant time hphase
  have hsorted := h.sim.sorted
  have hfuture := h.sim.future
  generalize c.sim.events = events at hlater hsorted hfuture
  cases events with
  | nil => exact fun _ he => by cases he
  | cons event events =>
    have hfirst : c.sim.now < event.time :=
      lt_of_le_of_ne (hfuture event List.mem_cons_self) fun heq =>
        hlater event rfl (heq.symm.trans hnow)
    intro e he
    rcases List.mem_cons.1 he with rfl | he
    · exact hfirst
    · exact hfirst.trans_le (Event.time_le_of_before ((List.pairwise_cons.1 hsorted).1 e he))

theorem OrderlyAt.stepped (hw : S.workload.Valid) {c c' : Config T κ} (h : OrderlyAt S c)
    (hstep : Stepped S c c') : OrderlyAt S c' := by
  obtain ⟨hsim, hinstant, hle⟩ := h
  cases hstep with
  | @enter s event events hevents htime =>
    dsimp only at hsim
    refine ⟨hsim.advance fun e he => ?_, fun time hphase => (by cases hphase; rfl), htime⟩
    have hsorted := hsim.sorted
    rw [hevents] at hsorted he
    rcases List.mem_cons.1 he with rfl | he
    · exact le_refl _
    · exact Event.time_le_of_before ((List.pairwise_cons.1 hsorted).1 e he)
  | @leave s hlater =>
    dsimp only at hsim
    refine ⟨hsim.advance ?_, fun time hphase => (by cases hphase), le_refl _⟩
    have hsorted := hsim.sorted
    generalize s.events = events at hlater hsorted
    cases events with
    | nil => exact fun _ he => by cases he
    | cons event events =>
      have hfirst := hlater event rfl
      intro e he
      rcases List.mem_cons.1 he with rfl | he
      · exact hfirst.le
      · exact hfirst.le.trans (Event.time_le_of_before ((List.pairwise_cons.1 hsorted).1 e he))
  | handle hevents htime hhandled =>
    refine ⟨hsim.handled hw hevents hhandled, fun time hphase => ?_, ?_⟩
    · exact hhandled.now.trans (hinstant time hphase)
    · exact (le_of_eq hhandled.now).trans hle
  | dispatch hlater hdispatched =>
    refine ⟨hsim.dispatched hw hdispatched, fun time hphase => (by cases hphase), ?_⟩
    exact (le_of_eq hdispatched.now).trans hle
  | done => exact ⟨hsim, hinstant, hle⟩

/-! ## Runs -/

omit [Add T] [Sub T] [Mul T] [NatCast T] [DecidableEq κ] [Clock T] in
theorem arrival_nonneg (hw : S.workload.Valid) :
    0 ≤ (S.workload.workflows.map (·.arrivalMs)).max?.getD 0 := by
  cases hmax : (S.workload.workflows.map (·.arrivalMs)).max? with
  | none => exact le_refl _
  | some time =>
    obtain ⟨workflow, hworkflow, rfl⟩ := List.mem_map.1 (List.max?_mem hmax)
    exact (hw.workflows workflow hworkflow).arrival_nonneg

omit [Sub T] in
theorem orderly_start (hw : S.workload.Valid) : OrderlyAt S (start S) := by
  have hinv := inv_start hw
  have hheap : (start S).sim.now = 0 ∧ (start S).sim.events.Pairwise Event.before ∧
      (∀ event ∈ (start S).sim.events, event.serial ≤ (start S).sim.serial) ∧
      ∀ event ∈ (start S).sim.events, 0 ≤ event.time := by
    refine start_induction (P := fun _ s => s.now = 0 ∧ s.events.Pairwise Event.before ∧
      (∀ event ∈ s.events, event.serial ≤ s.serial) ∧ ∀ event ∈ s.events, 0 ≤ event.time) hw
      ⟨rfl, .nil, fun _ he => (by cases he), fun _ he => (by cases he)⟩ ?_
    rintro entered workflow s ⟨hnow, hsorted, hserial, hfuture⟩ hworkflow -
    have harrival := (hw.workflows workflow hworkflow).arrival_nonneg
    have hdeadline : 0 ≤ workflow.arrivalMs + S.workload.horizonMs :=
      harrival.trans (Clock.le_add hw.horizon_pos.le)
    have hfirst : (push ⟨workflow.arrivalMs, s.serial + 1, .arrival workflow.id⟩ s.events).Pairwise
        Event.before := pairwise_push (fun e he => Nat.lt_succ_of_le (hserial e he)) hsorted
    refine ⟨hnow, pairwise_push (fun e he => ?_) hfirst, fun e he => ?_, fun e he => ?_⟩
    · rcases mem_push.1 he with rfl | he
      · exact Nat.lt_succ_self _
      · exact Nat.lt_succ_of_lt (Nat.lt_succ_of_le (hserial e he))
    · rcases mem_push.1 he with rfl | he
      · exact Nat.le_refl _
      · rcases mem_push.1 he with rfl | he
        · exact Nat.le_succ _
        · exact Nat.le_succ_of_le (Nat.le_succ_of_le (hserial e he))
    · rcases mem_push.1 he with rfl | he
      · exact hdeadline
      · rcases mem_push.1 he with rfl | he
        · exact harrival
        · exact hfuture e he
  obtain ⟨hnow, hsorted, hserial, hfuture⟩ := hheap
  refine ⟨⟨hinv.wellFormed, hinv.single, hsorted, hserial, ?_⟩, fun _ hphase => (by cases hphase), ?_⟩
  · rw [hnow]
    exact hfuture
  · rw [hnow]
    exact (arrival_nonneg hw).trans (Clock.le_add hw.horizon_pos.le)

/-- **Every point of a run is orderly.** -/
theorem Reachable.orderly (hw : S.workload.Valid) {c : Config T κ} (hc : Reachable S c) :
    OrderlyAt S c :=
  Runs.Reachable.invariant (P := OrderlyAt S) (orderly_start hw)
    (fun _ _ h hnext => h.stepped hw (next_stepped hnext)) hc

end ReedCode.Headroom
