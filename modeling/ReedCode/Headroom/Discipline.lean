import ReedCode.Headroom.Outcomes
import Mathlib.Order.Interval.Set.Basic

/-!
# The discipline of the GPU

What runs on the GPU and when, read off the log of a run.

* `Handled.logged`, `Dispatched.logged` — what the log says of a handled event and a dispatch.
* `Exclusive`, `Fair`, `Quiet` — one job at a time, in the order of the queue, and no preparation
  while a request waits.
* `announced` — the prefix that was announced last to be prepared, read off the events a run has
  handled.
* `single_gpu` — all of it, at every point of every run.
-/

set_option autoImplicit false

universe u

namespace ReedCode.Headroom

variable {T : Type u} {κ : Type u}

/-! ## The log -/

/-- The workflow whose job starts. -/
def LogEntry.starts? : LogEntry T → Option String
  | .requestStarted workflow .. => some workflow
  | .preparationStarted workflow .. => some workflow
  | _ => none

def LogEntry.started? : LogEntry T → Option (String × Nat)
  | .requestStarted workflow turn .. => some (workflow, turn)
  | _ => none

def LogEntry.readied? : LogEntry T → Option (String × Nat)
  | .requestReady workflow turn => some (workflow, turn)
  | _ => none

def LogEntry.finishes : LogEntry T → Bool
  | .requestFinished .. => true
  | .preparationFinished .. => true
  | _ => false

/-- The requests that became ready, and those that started, in the order of the log. -/
def readied (trace : List (T × LogEntry T)) : List (String × Nat) :=
  trace.filterMap fun entry => entry.2.readied?

def started (trace : List (T × LogEntry T)) : List (String × Nat) :=
  trace.filterMap fun entry => entry.2.started?

/-- The times at which jobs finished. -/
def finishes (trace : List (T × LogEntry T)) : List T :=
  (trace.filter fun entry => entry.2.finishes).map (·.1)

/-- The starts of jobs of one workflow. -/
def startsOf (ident : String) (trace : List (T × LogEntry T)) : List (T × LogEntry T) :=
  trace.filter fun entry => decide (entry.2.starts? = some ident)

/-- The turn a request is for. -/
def Request.turn (request : Request T) : String × Nat := (request.workflow, request.index)

/-- When a running job finishes. -/
def Event.end? (event : Event T κ) : Option T := event.job?.map fun _ => event.time

def ends (events : List (Event T κ)) : List T := events.filterMap Event.end?

section Intervals

variable [Zero T] [Add T] [Mul T] [NatCast T]

/-- When a job starts and when it finishes. -/
def LogEntry.interval? (workload : Workload T) (entry : T × LogEntry T) : Option (T × T) :=
  match entry.2 with
  | .requestStarted _ _ cost _ => some (entry.1, entry.1 + cost)
  | .preparationStarted _ _ blocks =>
    some (entry.1, entry.1 + (blocks : T) * workload.prefillBlockMs)
  | _ => none

def intervals (workload : Workload T) (trace : List (T × LogEntry T)) : List (T × T) :=
  trace.filterMap (LogEntry.interval? workload)

theorem interval?_eq_none {workload : Workload T} {entry : T × LogEntry T}
    (h : entry.2.starts? = none) : LogEntry.interval? workload entry = none := by
  obtain ⟨time, entry⟩ := entry
  cases entry with
  | requestStarted _ _ _ _ => cases h
  | preparationStarted _ _ _ => cases h
  | _ => rfl

end Intervals

/-! ## What is logged -/

variable [LinearOrder T] [Zero T] [Add T] [Sub T] [Mul T] [NatCast T] [DecidableEq κ] {S : Setup T κ}
  {s : Simulation T κ}

/-- What a handler logs and queues; it starts no job. -/
structure Logged (s : Simulation T κ) (action : Action T κ) (s' : Simulation T κ)
    (new : List (T × LogEntry T)) : Prop where
  trace : s'.trace = s.trace ++ new
  entries : ∀ entry ∈ new, entry.1 = s.now ∧ entry.2.starts? = none
  finished : finishes new = (action.job?.map fun _ => s.now).toList
  ready : readied new = [] ∨ ∃ workflow index, action = .ready workflow index ∧
    readied new = [(workflow, index)]
  queued : s'.queue.map Request.turn = s.queue.map Request.turn ++ readied new
  ends : ends s'.events = ends s.events

omit [Add T] [Sub T] [Mul T] [NatCast T] [DecidableEq κ] in
theorem ends_schedule : ∀ {entries : List (T × Action T κ)} {s : Simulation T κ},
    (∀ entry ∈ entries, entry.2.job? = none) → ends (s.schedule entries).events = ends s.events
  | [], _, _ => rfl
  | entry :: entries, s, h => by
    rw [List.forall_mem_cons] at h
    have hrest : ends ((s.event entry.1 entry.2).schedule entries).events =
        ends (s.event entry.1 entry.2).events := ends_schedule h.2
    refine hrest.trans (filterMap_push_of_none ?_ s.events)
    rw [Event.end?, Event.job?_eq, h.1]
    rfl

theorem Turned.ends {ident : String} {index : Nat} {s' : Simulation T κ}
    (h : Turned S s ident index s') : ends s'.events = ends s.events := by
  cases h with
  | dead _ _ => rfl
  | first _ _ _ _ =>
    refine ends_schedule fun entry hentry => ?_
    rw [List.mem_singleton.1 hentry]
    rfl
  | @wait _ turn _ _ _ _ =>
    refine ends_schedule (s := { s with
      intents := s.intents.insert ident (s.newIntent S index turn) }) fun entry hentry => ?_
    rcases List.mem_append.1 hentry with hentry | hentry
    · rcases List.mem_cons.1 hentry with rfl | hentry
      · rfl
      · obtain ⟨update, -, rfl⟩ := List.mem_map.1 hentry
        rfl
    · rw [(mem_wakes hentry).1]
      rfl

theorem Turned.trace {ident : String} {index : Nat} {s' : Simulation T κ}
    (h : Turned S s ident index s') : s'.trace = s.trace ∧ s'.queue = s.queue := by
  cases h with
  | dead _ _ => exact ⟨rfl, rfl⟩
  | first _ _ _ _ => exact ⟨rfl, rfl⟩
  | wait _ _ _ _ =>
    rw [Simulation.schedule_eq]
    exact ⟨rfl, rfl⟩

omit [LinearOrder T] [Add T] [Sub T] [Mul T] [NatCast T] [DecidableEq κ] in
theorem Logged.nothing {action : Action T κ} {s' : Simulation T κ} (hjob : action.job? = none)
    (htrace : s'.trace = s.trace) (hqueue : s'.queue = s.queue)
    (hends : Headroom.ends s'.events = Headroom.ends s.events) : Logged s action s' [] :=
  ⟨htrace.trans (List.append_nil _).symm, fun _ hentry => (by cases hentry),
    (by rw [hjob]; rfl), Or.inl rfl,
    (congrArg (List.map Request.turn) hqueue).trans (List.append_nil _).symm, hends⟩

omit [LinearOrder T] [Add T] [Sub T] [Mul T] [NatCast T] [DecidableEq κ] in
/-- One entry that neither starts a job nor queues a request. -/
theorem Logged.one {action : Action T κ} {s' : Simulation T κ} (entry : LogEntry T)
    (hstarts : entry.starts? = none) (hready : entry.readied? = none)
    (hfinishes : entry.finishes = action.job?.isSome)
    (htrace : s'.trace = s.trace ++ [(s.now, entry)]) (hqueue : s'.queue = s.queue)
    (hends : Headroom.ends s'.events = Headroom.ends s.events) :
    Logged s action s' [(s.now, entry)] := by
  have hnone : readied [(s.now, entry)] = [] := by simp [readied, hready]
  refine ⟨htrace, fun e he => ?_, ?_, Or.inl hnone, ?_, hends⟩
  · rw [List.mem_singleton.1 he]
    exact ⟨rfl, hstarts⟩
  · cases hjob : action.job? <;> simp [Headroom.finishes, hfinishes, hjob]
  · rw [hqueue, hnone, List.append_nil]

/-- **What a handled event logs.** -/
theorem Handled.logged {action : Action T κ} {s' : Simulation T κ} (h : Handled S s action s') :
    ∃ new, Logged s action s' new := by
  cases h with
  | wake => exact ⟨[], .nothing rfl rfl rfl rfl⟩
  | arrival hturned =>
    obtain ⟨htrace, hqueue⟩ := hturned.trace
    exact ⟨[], .nothing rfl htrace hqueue hturned.ends⟩
  | deadlineDead _ _ => exact ⟨[], .nothing rfl rfl rfl rfl⟩
  | deadline _ _ =>
    rw [deactivate_eq]
    exact ⟨_, .one _ rfl rfl rfl rfl rfl rfl⟩
  | readyDead _ _ => exact ⟨[], .nothing rfl rfl rfl rfl⟩
  | @ready ident index _ _ _ =>
    refine ⟨[(s.now, .requestReady ident index)], rfl, fun e he => ?_, rfl,
      Or.inr ⟨ident, index, rfl, rfl⟩, List.map_append, rfl⟩
    rw [List.mem_singleton.1 he]
    exact ⟨rfl, rfl⟩
  | updateStale _ => exact ⟨[], .nothing rfl rfl rfl rfl⟩
  | cancelled _ _ _ _ => exact ⟨_, .one _ rfl rfl rfl rfl rfl rfl⟩
  | @revised ident _ intent _ blocks _ _ _ _ =>
    have hwakes : ∀ entry ∈ wakes S s { intent with
        revision := intent.revision + 1, keys := S.digest.blockKeys blocks },
        entry.2.job? = none := fun entry hentry => by
      rw [(mem_wakes hentry).1]
      rfl
    refine ⟨_, .one (.revision ident (intent.revision + 1)) rfl rfl rfl ?_ ?_
      (ends_schedule hwakes)⟩
    · rw [Simulation.schedule_eq]
      rfl
    · rw [Simulation.schedule_eq]
      rfl
  | prepared _ _ => exact ⟨_, .one _ rfl rfl rfl rfl rfl rfl⟩
  | requestDead _ _ => exact ⟨_, .one _ rfl rfl rfl rfl rfl rfl⟩
  | requestLast _ _ _ => exact ⟨_, .one _ rfl rfl rfl rfl rfl rfl⟩
  | @requestNext workflow index _ _ _ _ _ _ _ _ hturned =>
    obtain ⟨htrace, hqueue⟩ := hturned.trace
    exact ⟨_, .one (.requestFinished workflow index) rfl rfl rfl htrace hqueue hturned.ends⟩

/-- What a dispatch logs: nothing, or the start of one job of a running workflow. -/
structure Launched (S : Setup T κ) (s s' : Simulation T κ) (dropped : List (Request T))
    (new : List (T × LogEntry T)) : Prop where
  trace : s'.trace = s.trace ++ new
  dead : ∀ r ∈ dropped, s.Dead r.workflow
  queue : s.queue.map Request.turn =
    dropped.map Request.turn ++ (started new ++ s'.queue.map Request.turn)
  ends : new = [] ∧ ends s'.events = ends s.events ∨
    ∃ entry ident finish, new = [(s.now, entry)] ∧ s.busy = false ∧ entry.finishes = false ∧
      entry.readied? = none ∧ entry.starts? = some ident ∧ s.Running ident ∧
      LogEntry.interval? S.workload (s.now, entry) = some (s.now, finish) ∧
      (Headroom.ends s.events = [] → Headroom.ends s'.events = [finish])

omit [Add T] in
theorem searched_ends (skipped : List (String × Intent T κ)) :
    ends (searched S s skipped).events = ends s.events := by
  refine ends_schedule (s := { s with queue := [] }) fun entry hentry => ?_
  obtain ⟨e, -, hentry⟩ := List.mem_flatMap.1 hentry
  rw [(mem_wakes hentry).1]
  rfl

/-- **What a dispatch logs.** -/
theorem Dispatched.launched {s' : Simulation T κ} (h : Dispatched S s s') :
    ∃ dropped new, Launched S s s' dropped new := by
  have hall : s.queue.map Request.turn = s.queue.map Request.turn ++ (started ([] :
      List (T × LogEntry T)) ++ ([] : List (Request T)).map Request.turn) :=
    (List.append_nil _).symm
  cases h with
  | busy _ =>
    exact ⟨[], [], (List.append_nil _).symm, fun _ hr => (by cases hr), rfl, Or.inl ⟨rfl, rfl⟩⟩
  | @idle skipped _ hdead _ =>
    refine ⟨s.queue, [], ?_, hdead, ?_, Or.inl ⟨rfl, searched_ends skipped⟩⟩
    · rw [searched_eq, List.append_nil]
    · rw [searched_eq]
      exact hall
  | @request dead rest request state turn useful victims cache hidle hqueue hdead hstate hrunning =>
    refine ⟨dead, _, rfl, hdead, ?_, Or.inr ⟨.requestStarted request.workflow request.index
      (requestCost S s turn) (creditedBlocks S s turn), request.workflow,
      s.now + requestCost S s turn, rfl, hidle, rfl, rfl, rfl, ⟨state, hstate, hrunning⟩, rfl,
      fun hends => filterMap_push_of_some rfl hends⟩⟩
    rw [hqueue, List.map_append]
    rfl
  | @preparation skipped ident intent victims cache hidle hdead _ hpreparable _ =>
    have hchunk : chunk S (searched S s skipped) intent = chunk S s intent := by
      rw [searched_eq]
      rfl
    have hnow : (searched S s skipped).now = s.now := by rw [searched_eq]
    have htrace : (searched S s skipped).trace = s.trace := by rw [searched_eq]
    have hqueue : (searched S s skipped).queue = [] := by rw [searched_eq]
    refine ⟨s.queue, [(s.now, .preparationStarted ident intent.revision (chunk S s intent))], ?_,
      hdead, ?_, Or.inr ⟨_, ident, s.now + (chunk S s intent : T) * S.workload.prefillBlockMs, rfl,
        hidle, rfl, rfl, rfl, hpreparable.running, rfl, fun hends => ?_⟩⟩
    · show (searched S s skipped).trace ++ [((searched S s skipped).now, .preparationStarted ident
        intent.revision (chunk S (searched S s skipped) intent))] = _
      rw [htrace, hnow, hchunk]
    · show _ = _ ++ (_ ++ (searched S s skipped).queue.map Request.turn)
      rw [hqueue]
      exact hall
    · rw [← hnow, ← hchunk]
      exact filterMap_push_of_some rfl ((searched_ends skipped).trans hends)

/-! ## One job at a time -/

/-- The jobs that started, against those that finished and the one that runs. -/
structure Exclusive (S : Setup T κ) (s : Simulation T κ) : Prop where
  finished : (intervals S.workload s.trace).map (·.2) = finishes s.trace ++ ends s.events
  past : ∀ entry ∈ s.trace, entry.1 ≤ s.now
  ordered : (intervals S.workload s.trace).Pairwise fun a b => a.2 ≤ b.1

omit [LinearOrder T] [Sub T] [DecidableEq κ] in
theorem intervals_append (workload : Workload T) (trace new : List (T × LogEntry T)) :
    intervals workload (trace ++ new) = intervals workload trace ++ intervals workload new :=
  List.filterMap_append

omit [LinearOrder T] [Zero T] [Add T] [Sub T] [Mul T] [NatCast T] [DecidableEq κ] in
theorem finishes_append (trace new : List (T × LogEntry T)) :
    finishes (trace ++ new) = finishes trace ++ finishes new := by
  rw [finishes, List.filter_append, List.map_append]
  rfl

omit [LinearOrder T] [Zero T] [Add T] [Sub T] [Mul T] [NatCast T] [DecidableEq κ] in
theorem ends_cons (event : Event T κ) (events : List (Event T κ)) :
    ends (event :: events) = (event.action.job?.map fun _ => event.time).toList ++ ends events := by
  rw [ends, List.filterMap_cons, Event.end?, Event.job?_eq]
  cases event.action.job? <;> rfl

omit [LinearOrder T] [Zero T] [Add T] [Sub T] [Mul T] [NatCast T] [DecidableEq κ] in
theorem ends_eq_nil {events : List (Event T κ)} (h : jobs events = []) : ends events = [] := by
  refine List.filterMap_eq_nil_iff.2 fun event hevent => ?_
  rw [Event.end?, List.filterMap_eq_nil_iff.1 h event hevent]
  rfl

omit [DecidableEq κ] in
/-- Time goes on. -/
theorem Exclusive.advance (h : Exclusive S s) {time : T} (hle : s.now ≤ time) :
    Exclusive S (s.advance time) :=
  ⟨h.finished, fun entry hentry => (h.past entry hentry).trans hle, h.ordered⟩

theorem Exclusive.handled (h : Exclusive S s) {event : Event T κ} {events : List (Event T κ)}
    (hevents : s.events = event :: events) (htime : event.time = s.now)
    {s' : Simulation T κ} (hhandled : Handled S { s with events := events } event.action s') :
    Exclusive S s' := by
  obtain ⟨new, hlogged⟩ := hhandled.logged
  have hstarts : intervals S.workload new = [] := List.filterMap_eq_nil_iff.2 fun entry hentry =>
    interval?_eq_none (hlogged.entries entry hentry).2
  have hsame : intervals S.workload s'.trace = intervals S.workload s.trace := by
    rw [hlogged.trace, intervals_append, hstarts, List.append_nil]
  refine ⟨?_, fun entry hentry => ?_, ?_⟩
  · rw [hsame, h.finished, hlogged.trace, finishes_append, hlogged.finished, hlogged.ends, hevents,
      List.append_assoc]
    rw [ends_cons, htime]
  · rw [hhandled.now]
    rw [hlogged.trace] at hentry
    rcases List.mem_append.1 hentry with hentry | hentry
    · exact h.past entry hentry
    · exact (hlogged.entries entry hentry).1.le
  · rw [hsame]
    exact h.ordered

theorem Exclusive.dispatched (h : Exclusive S s) (hs : Orderly S s) {s' : Simulation T κ}
    (hdispatched : Dispatched S s s') : Exclusive S s' := by
  obtain ⟨dropped, new, hlaunched⟩ := hdispatched.launched
  have hpast : ∀ entry ∈ s'.trace, entry.1 ≤ s'.now := by
    intro entry hentry
    rw [hdispatched.now]
    rw [hlaunched.trace] at hentry
    rcases List.mem_append.1 hentry with hentry | hentry
    · exact h.past entry hentry
    · rcases hlaunched.ends with ⟨rfl, -⟩ | ⟨e, ident, finish, rfl, -⟩
      · cases hentry
      · rw [List.mem_singleton.1 hentry]
  rcases hlaunched.ends with ⟨rfl, hends⟩ | ⟨entry, ident, finish, rfl, hidle, hfinishes, -, -, -,
    hinterval, hends⟩
  · have htrace : s'.trace = s.trace := hlaunched.trace.trans (List.append_nil _)
    refine ⟨?_, hpast, ?_⟩
    · rw [htrace, hends]
      exact h.finished
    · rw [htrace]
      exact h.ordered
  · have hnil : ends s.events = [] := by
      have hsingle := hs.single
      rw [hidle] at hsingle
      exact ends_eq_nil (List.length_eq_zero_iff.1 hsingle)
    have hbefore := h.finished
    rw [hnil, List.append_nil] at hbefore
    have hnew : intervals S.workload [(s.now, entry)] = [(s.now, finish)] := by
      rw [intervals, List.filterMap_cons_some hinterval]
      rfl
    have hnone : finishes [(s.now, entry)] = [] := by simp [finishes, hfinishes]
    refine ⟨?_, hpast, ?_⟩
    · rw [hlaunched.trace, intervals_append, finishes_append, hnew, hnone, hends hnil,
        List.map_append, hbefore, List.append_nil]
      rfl
    · rw [hlaunched.trace, intervals_append, hnew, List.pairwise_append]
      refine ⟨h.ordered, List.pairwise_singleton _ _, fun a ha b hb => ?_⟩
      rw [List.mem_singleton.1 hb]
      -- the jobs before have finished, so they have finished by now
      have hfinish : a.2 ∈ finishes s.trace := hbefore ▸ List.mem_map_of_mem ha
      obtain ⟨e, he, hsame⟩ := List.mem_map.1 hfinish
      rw [← hsame]
      exact h.past e (List.mem_of_mem_filter he)

/-! ## First come, first served -/

/-- The requests that became ready, against those that started and those that are queued. -/
structure Fair (s : Simulation T κ) : Prop where
  order : (started s.trace ++ s.queue.map Request.turn).Sublist (readied s.trace)
  distinct : (readied s.trace).Nodup
  kept : ∀ turn ∈ readied s.trace, s.Running turn.1 →
    turn ∈ started s.trace ++ s.queue.map Request.turn

omit [LinearOrder T] [Zero T] [Add T] [Sub T] [Mul T] [NatCast T] [DecidableEq κ] in
theorem readied_append (trace new : List (T × LogEntry T)) :
    readied (trace ++ new) = readied trace ++ readied new := List.filterMap_append

omit [LinearOrder T] [Zero T] [Add T] [Sub T] [Mul T] [NatCast T] [DecidableEq κ] in
theorem started_append (trace new : List (T × LogEntry T)) :
    started (trace ++ new) = started trace ++ started new := List.filterMap_append

omit [LinearOrder T] [Zero T] [Add T] [Sub T] [Mul T] [NatCast T] [DecidableEq κ] in
theorem started_eq_nil {new : List (T × LogEntry T)} (h : ∀ entry ∈ new, entry.2.starts? = none) :
    started new = [] := by
  refine List.filterMap_eq_nil_iff.2 fun entry hentry => ?_
  have hstarts := h entry hentry
  obtain ⟨time, entry⟩ := entry
  cases entry with
  | requestStarted _ _ _ _ => cases hstarts
  | _ => rfl

omit [LinearOrder T] [Add T] [Sub T] [Mul T] [NatCast T] [DecidableEq κ] in
/-- What becomes ready joins the queue. -/
theorem Fair.logged (h : Fair s) {action : Action T κ} {p s' : Simulation T κ}
    {new : List (T × LogEntry T)} (hlogged : Logged p action s' new) (htrace : p.trace = s.trace)
    (hqueue : p.queue = s.queue) (hrunning : ∀ ident, s'.Running ident → s.Running ident)
    (hfresh : ∀ workflow index, action = .ready workflow index →
      (workflow, index) ∉ readied s.trace) : Fair s' := by
  have hstarted : started s'.trace = started s.trace := by
    rw [hlogged.trace, started_append, started_eq_nil fun e he => (hlogged.entries e he).2,
      List.append_nil, htrace]
  have hreadied : readied s'.trace = readied s.trace ++ readied new := by
    rw [hlogged.trace, readied_append, htrace]
  have hqueued := hlogged.queued
  rw [hqueue] at hqueued
  refine ⟨?_, ?_, fun turn hturn hrun => ?_⟩
  · rw [hstarted, hreadied, hqueued, ← List.append_assoc]
    exact h.order.append_right _
  · rw [hreadied]
    rcases hlogged.ready with hnone | ⟨workflow, index, haction, hone⟩
    · rw [hnone, List.append_nil]
      exact h.distinct
    · rw [hone, List.nodup_append]
      refine ⟨h.distinct, List.nodup_singleton _, fun a ha b hb heq => ?_⟩
      rw [heq, List.mem_singleton.1 hb] at ha
      exact hfresh workflow index haction ha
  · rw [hstarted, hqueued, ← List.append_assoc, List.mem_append]
    rw [hreadied, List.mem_append] at hturn
    exact hturn.imp_left fun hturn => h.kept turn hturn (hrunning turn.1 hrun)

omit [LinearOrder T] [Sub T] [DecidableEq κ] in
/-- The first request of the queue that is not dropped starts. -/
theorem Fair.launched (h : Fair s) {s' : Simulation T κ} {dropped : List (Request T)}
    {new : List (T × LogEntry T)} (hlaunched : Launched S s s' dropped new)
    (hstates : s'.states = s.states) : Fair s' := by
  have hreadied : readied s'.trace = readied s.trace := by
    rw [hlaunched.trace, readied_append]
    rcases hlaunched.ends with ⟨rfl, -⟩ | ⟨entry, ident, finish, rfl, -, -, hnone, -⟩
    · exact List.append_nil _
    · have hnew : readied [(s.now, entry)] = [] := by simp [readied, hnone]
      rw [hnew, List.append_nil]
  have hstarted : started s'.trace = started s.trace ++ started new := by
    rw [hlaunched.trace, started_append]
  have horder := h.order
  rw [hlaunched.queue] at horder
  refine ⟨?_, hreadied ▸ h.distinct, fun turn hturn hrun => ?_⟩
  · rw [hstarted, hreadied, List.append_assoc]
    refine List.Sublist.trans ?_ horder
    exact (List.sublist_append_right _ _).append_left _
  · have hrunning : s.Running turn.1 := by
      unfold Simulation.Running at hrun ⊢
      rwa [hstates] at hrun
    have hkept := h.kept turn (hreadied ▸ hturn) hrunning
    rw [hlaunched.queue] at hkept
    rw [hstarted, List.append_assoc]
    rcases List.mem_append.1 hkept with hkept | hkept
    · exact List.mem_append_left _ hkept
    · refine List.mem_append_right _ ((List.mem_append.1 hkept).resolve_left fun hdropped => ?_)
      obtain ⟨request, hrequest, rfl⟩ := List.mem_map.1 hdropped
      obtain ⟨state, hstate, hdead⟩ := hlaunched.dead request hrequest
      obtain ⟨state', hstate', hlive⟩ := hrunning
      cases hstate.symm.trans hstate'
      exact hdead hlive

omit [LinearOrder T] [Add T] [Sub T] [Mul T] [NatCast T] [DecidableEq κ] in
theorem running_congr {s' : Simulation T κ} (h : s'.states = s.states) (ident : String) :
    s'.Running ident ↔ s.Running ident := by
  unfold Simulation.Running
  rw [h]

omit [LinearOrder T] [Add T] [Sub T] [Mul T] [NatCast T] [DecidableEq κ] in
/-- Writing a state makes no workflow run that did not. -/
theorem running_setState {workflow : String} {old : WorkflowState T}
    (hold : s.states.get? workflow = some old) (new : WorkflowState T)
    (hnew : new.status = .running → old.status = .running) {s' : Simulation T κ}
    (hstates : s'.states = s.states.insert workflow new) {ident : String} (h : s'.Running ident) :
    s.Running ident := by
  obtain ⟨state, hstate, hrunning⟩ := h
  rw [hstates, FinMap.get?_insert] at hstate
  split at hstate
  · rename_i hself
    cases hstate
    exact ⟨old, hself ▸ hold, hnew hrunning⟩
  · exact ⟨state, hstate, hrunning⟩

/-- A handled event makes no workflow run that did not. -/
theorem Handled.running {action : Action T κ} {s' : Simulation T κ} (h : Handled S s action s')
    {ident : String} (hrunning : s'.Running ident) : s.Running ident := by
  cases h with
  | wake => exact hrunning
  | arrival hturned => exact (running_congr hturned.states ident).1 hrunning
  | deadlineDead _ _ => exact hrunning
  | deadline hstate _ =>
    rw [deactivate_eq] at hrunning
    exact running_setState hstate _ (fun heq => by cases heq) rfl hrunning
  | readyDead _ _ => exact hrunning
  | ready _ _ => exact hrunning
  | updateStale _ => exact hrunning
  | cancelled _ hstate _ _ => exact running_setState hstate _ (fun heq => by cases heq) rfl hrunning
  | revised _ _ _ _ =>
    rw [Simulation.schedule_eq] at hrunning
    exact hrunning
  | prepared _ _ => exact hrunning
  | @requestDead _ index _ ready cached state hstate _ =>
    exact running_setState hstate (state.record s.now index ready cached) id rfl hrunning
  | @requestLast workflow index keys ready cached state hstate _ _ =>
    have hrecorded : (recorded s state workflow index keys ready cached).states.get? workflow =
        some (state.record s.now index ready cached) := FinMap.get?_insert_self ..
    have hbefore := running_setState hrecorded _ (fun heq => by cases heq) rfl hrunning
    exact running_setState hstate (state.record s.now index ready cached) id rfl hbefore
  | @requestNext _ index _ ready cached state _ hstate _ _ hturned =>
    have hbefore := (running_congr hturned.states ident).1 hrunning
    exact running_setState hstate (state.record s.now index ready cached) id rfl hbefore

omit [Mul T] [NatCast T] [DecidableEq κ] in
/-- The turn a `ready` event is for has not been ready before. -/
theorem Chronicled.fresh (h : Chronicled S s) (hs : Orderly S s) {event : Event T κ}
    {events : List (Event T κ)} {workflow : String} {index : Nat}
    (hevents : s.events = event :: events) (haction : event.action = .ready workflow index) :
    (workflow, index) ∉ readied s.trace := by
  intro hmem
  have hturn : HasTurn S workflow index := by
    have hok := hs.wellFormed.events event (hevents ▸ List.mem_cons_self)
    rwa [haction] at hok
  obtain ⟨wf, hwf, rfl⟩ := hturn.known
  obtain ⟨state, -, hrecorded, -⟩ := h wf hwf
  have htoken : event.token? wf.id = some (.waiting index) := by
    rw [Event.token?, haction]
    exact if_pos rfl
  have hdeadline : event.deadline? wf.id = none := by rw [Event.deadline?, haction]
  obtain ⟨htokens, -⟩ := life_pop_token hevents htoken hdeadline hrecorded.tokens_length
  obtain ⟨entry, hentry, hready⟩ := List.mem_filterMap.1 hmem
  obtain ⟨time, entry⟩ := entry
  cases entry with
  | requestReady w i =>
    cases hready
    have hnews : (time, News.ready index) ∈ news wf.id s.trace :=
      List.mem_filterMap.2 ⟨_, hentry, if_pos rfl⟩
    exact absurd ((hrecorded.fits htokens).fresh time index hnews) (Nat.lt_irrefl index)
  | _ => cases hready

/-! ## Demand before preparation -/

/-- An action that queues nothing and starts nothing anew. -/
def Action.calm : Action T κ → Bool
  | .wake => true
  | .finished (.speculative ..) => true
  | _ => false

/-- Once a preparation has started, no request is queued at that instant. -/
structure Quiet (s : Simulation T κ) : Prop where
  queue : ∀ request ∈ s.queue, ¬ s.Running request.workflow
  calm : ∀ event ∈ s.events, event.time = s.now → event.action.calm = true

def LogEntry.prepares : LogEntry T → Bool
  | .preparationStarted .. => true
  | _ => false

/-- A preparation started at this instant. -/
def Simulation.Prepares (s : Simulation T κ) : Prop :=
  ∃ entry ∈ s.trace, entry.1 = s.now ∧ entry.2.prepares = true

theorem Quiet.handled (h : s.Prepares → Quiet s) {event : Event T κ} {events : List (Event T κ)}
    (hevents : s.events = event :: events) (htime : event.time = s.now) {s' : Simulation T κ}
    (hhandled : Handled S { s with events := events } event.action s') : s'.Prepares → Quiet s' := by
  rintro ⟨entry, hentry, hat, hprepares⟩
  obtain ⟨new, hlogged⟩ := hhandled.logged
  rw [hhandled.now] at hat
  rw [hlogged.trace] at hentry
  rcases List.mem_append.1 hentry with hentry | hentry
  · obtain ⟨hqueue, hcalm⟩ := h ⟨entry, hentry, hat, hprepares⟩
    have hpop : Quiet { s with events := events } := ⟨hqueue, fun e he =>
      hcalm e (hevents ▸ List.mem_cons_of_mem _ he)⟩
    have haction := hcalm event (hevents ▸ List.mem_cons_self) htime
    generalize event.action = action at hhandled haction
    cases hhandled with
    | wake => exact hpop
    | prepared _ _ => exact ⟨hpop.queue, hpop.calm⟩
    | _ => cases haction
  · have hstarts := (hlogged.entries entry hentry).2
    obtain ⟨time, entry⟩ := entry
    cases entry with
    | preparationStarted _ _ _ => cases hstarts
    | _ => cases hprepares

theorem Quiet.dispatched (h : s.Prepares → Quiet s) (hsettled : ∀ event ∈ s.events, s.now < event.time)
    {s' : Simulation T κ} (hdispatched : Dispatched S s s') : s'.Prepares → Quiet s' := by
  have hsearched : ∀ skipped, Quiet (searched S s skipped) := fun skipped => by
    refine ⟨?_, ?_⟩
    · rw [searched_eq]
      exact fun _ hr => by cases hr
    · intro event hevent htime
      rw [show (searched S s skipped).now = s.now by rw [searched_eq]] at htime
      rcases Simulation.mem_schedule hevent with hevent | ⟨entry, hentry, hat, haction⟩
      · exact absurd htime (hsettled event hevent).ne'
      · obtain ⟨e, -, hentry⟩ := List.mem_flatMap.1 hentry
        rw [haction, (mem_wakes hentry).1]
        rfl
  cases hdispatched with
  | busy _ => exact h
  | idle _ _ _ => exact fun _ => hsearched _
  | @preparation skipped ident intent victims cache _ _ _ _ _ =>
    refine fun _ => ⟨(hsearched skipped).queue, fun event hevent htime => ?_⟩
    rcases mem_push.1 hevent with rfl | hevent
    · rfl
    · exact (hsearched skipped).calm event hevent htime
  | @request dead rest request state turn useful victims cache _ hqueue _ hstate hrunning _ _ _ _ =>
    rintro ⟨entry, hentry, hat, hprepares⟩
    rcases List.mem_append.1 hentry with hentry | hentry
    · have hmem : request ∈ s.queue := hqueue ▸ List.mem_append_right dead List.mem_cons_self
      have hquiet := h ⟨entry, hentry, hat, hprepares⟩
      exact absurd ⟨state, hstate, hrunning⟩ (hquiet.queue request hmem)
    · rw [List.mem_singleton.1 hentry] at hprepares
      cases hprepares

omit [DecidableEq κ] in
theorem Quiet.advance (h : s.Prepares → Quiet s) (hpast : ∀ entry ∈ s.trace, entry.1 ≤ s.now)
    {time : T} (hle : s.now ≤ time) : (s.advance time).Prepares → Quiet (s.advance time) := by
  rintro ⟨entry, hentry, hat, hprepares⟩
  have hsame : time = s.now := le_antisymm (le_of_eq_of_le hat.symm (hpast entry hentry)) hle
  have hquiet := h ⟨entry, hentry, hat.trans hsame, hprepares⟩
  exact ⟨hquiet.queue, fun event hevent htime => hquiet.calm event hevent (htime.trans hsame)⟩

/-! ## What is announced -/

/-- The event that is handled next. -/
def Config.handles? (c : Config T κ) : Option (Action T κ) :=
  match c.phase, c.sim.events with
  | .instant time, event :: _ => if event.time = time then some event.action else none
  | _, _ => none

/-- The workflow runs and waits for this turn. -/
def Simulation.waits (s : Simulation T κ) (ident : String) (index : Nat) : Bool :=
  (s.states.get? ident).any (fun state => decide (state.status = .running)) &&
    (s.intents.get? ident).any fun intent => decide (intent.index = index)

/-- The turn a running workflow waits for behind a request. -/
def Simulation.follows? (s : Simulation T κ) (ident : String) (index : Nat) : Option (Turn T) :=
  (s.states.get? ident).bind fun state =>
    if state.status = .running then state.workflow.turns[index + 1]? else none

/-- How an event changes what is announced of a workflow: the number of the revision and its
blocks. -/
def Simulation.announce (s : Simulation T κ) (ident : String) (last : Option (Nat × List String)) :
    Action T κ → Option (Nat × List String)
  | .finished (.demand workflow index ..) =>
    if workflow = ident then
      match s.follows? ident index with
      | some turn => some (0, turn.intent)
      | none => last
    else last
  | .update workflow index update =>
    if workflow = ident ∧ s.waits ident index = true then
      last.map fun r => (r.1 + 1, match update.change with
        | .prefixBlocks blocks => blocks
        | .cancel => r.2)
    else last
  | _ => last

/-- What the events handled at these points, the latest in front, announced of a workflow. -/
def announced (ident : String) : List (Config T κ) → Option (Nat × List String)
  | [] => none
  | c :: older =>
    match c.handles? with
    | some action => c.sim.announce ident (announced ident older) action
    | none => announced ident older

/-- Every intent has the revision and the blocks that were announced last. -/
def Announced (S : Setup T κ) (older : List (Config T κ)) (s : Simulation T κ) : Prop :=
  ∀ ident intent, s.intents.get? ident = some intent → ∃ blocks,
    announced ident older = some (intent.revision, blocks) ∧ intent.keys = S.digest.blockKeys blocks

omit [LinearOrder T] [Add T] [Sub T] [Mul T] [NatCast T] [DecidableEq κ] in
/-- An intent that is deactivated keeps its revision and its keys. -/
theorem get?_deactivate {ident workflow : String} {intent : Intent T κ}
    (h : (s.deactivate workflow).intents.get? ident = some intent) :
    ∃ before, s.intents.get? ident = some before ∧ before.revision = intent.revision ∧
      before.keys = intent.keys := by
  unfold Simulation.deactivate at h
  split at h
  · exact ⟨intent, h, rfl, rfl⟩
  · rename_i old hold
    rw [FinMap.get?_insert] at h
    split at h
    · rename_i hself
      cases h
      exact ⟨old, hself ▸ hold, rfl, rfl⟩
    · exact ⟨intent, h, rfl, rfl⟩

/-- What holds of the intents after an event is handled. -/
def Follows (S : Setup T κ) (last next : String → Option (Nat × List String))
    (s s' : Simulation T κ) : Prop :=
  (∀ ident intent, s.intents.get? ident = some intent → ∃ blocks,
    last ident = some (intent.revision, blocks) ∧ intent.keys = S.digest.blockKeys blocks) →
  ∀ ident intent, s'.intents.get? ident = some intent → ∃ blocks,
    next ident = some (intent.revision, blocks) ∧ intent.keys = S.digest.blockKeys blocks

omit [LinearOrder T] [Add T] [Sub T] [Mul T] [NatCast T] [DecidableEq κ] in
/-- Nothing is announced and the intents are the same, up to their activity. -/
theorem Follows.same {last next : String → Option (Nat × List String)} {s' : Simulation T κ}
    (hnext : ∀ ident, next ident = last ident)
    (hintents : ∀ ident intent, s'.intents.get? ident = some intent → ∃ before,
      s.intents.get? ident = some before ∧ before.revision = intent.revision ∧
        before.keys = intent.keys) : Follows S last next s s' := by
  intro h ident intent hintent
  obtain ⟨before, hbefore, hrevision, hkeys⟩ := hintents ident intent hintent
  obtain ⟨blocks, hlast, hblocks⟩ := h ident before hbefore
  exact ⟨blocks, by rw [hnext, hlast, hrevision], hkeys ▸ hblocks⟩

omit [LinearOrder T] [Add T] [Sub T] [Mul T] [NatCast T] [DecidableEq κ] in
/-- One intent is written as it is announced. -/
theorem Follows.insert {last next : String → Option (Nat × List String)} {workflow : String}
    {intent : Intent T κ} {s' : Simulation T κ}
    (hother : ∀ ident, workflow ≠ ident → next ident = last ident)
    (hself : (∀ before, s.intents.get? workflow = some before → ∃ blocks,
      last workflow = some (before.revision, blocks) ∧ before.keys = S.digest.blockKeys blocks) →
        ∃ blocks, next workflow = some (intent.revision, blocks) ∧
          intent.keys = S.digest.blockKeys blocks)
    (hintents : s'.intents = s.intents.insert workflow intent) : Follows S last next s s' := by
  intro h ident found hfound
  rw [hintents, FinMap.get?_insert] at hfound
  split at hfound
  · rename_i heq
    subst heq
    cases hfound
    exact hself (h workflow)
  · rename_i hne
    obtain ⟨blocks, hlast, hblocks⟩ := h ident found hfound
    exact ⟨blocks, (hother ident hne).trans hlast, hblocks⟩

omit [LinearOrder T] [Add T] [Sub T] [Mul T] [NatCast T] [DecidableEq κ] in
theorem unchanged {s' : Simulation T κ} (h : s'.intents = s.intents) (ident : String)
    (intent : Intent T κ) (hintent : s'.intents.get? ident = some intent) : ∃ before,
      s.intents.get? ident = some before ∧ before.revision = intent.revision ∧
        before.keys = intent.keys := ⟨intent, h ▸ hintent, rfl, rfl⟩

omit [LinearOrder T] [Add T] [Sub T] [Mul T] [NatCast T] [DecidableEq κ] in
/-- An update that is taken is announced. -/
theorem announce_update {last : String → Option (Nat × List String)} {workflow : String}
    {intent : Intent T κ} {state : WorkflowState T} {update : Update T}
    (hintent : s.intents.get? workflow = some intent)
    (hstate : s.states.get? workflow = some state) (hrunning : state.status = .running)
    (ident : String) :
    s.announce ident (last ident) (.update workflow intent.index update : Action T κ) =
      if workflow = ident then
        (last ident).map fun r => (r.1 + 1, match update.change with
          | .prefixBlocks blocks => blocks
          | .cancel => r.2)
      else last ident := by
  by_cases hself : workflow = ident
  · subst hself
    have hwaits : s.waits workflow intent.index = true := by
      simp [Simulation.waits, hstate, hintent, hrunning]
    rw [if_pos rfl]
    exact if_pos ⟨rfl, hwaits⟩
  · rw [if_neg hself]
    exact if_neg fun h => hself h.1

omit [LinearOrder T] [Add T] [Sub T] [Mul T] [NatCast T] [DecidableEq κ] in
/-- A request behind which no wait begins announces nothing. -/
theorem announce_demand_of_none {last : String → Option (Nat × List String)} {workflow : String}
    {index : Nat} {keys : List κ} {ready : T} {cached : Nat}
    (hnone : s.follows? workflow index = none) (ident : String) :
    s.announce ident (last ident) (.finished (.demand workflow index keys ready cached)) =
      last ident := by
  show (if workflow = ident then _ else _) = _
  split
  · rename_i hself
    rw [← hself, hnone]
  · rfl

/-- **A handled event announces what it changes of the intents.** -/
theorem Handled.follows {action : Action T κ} {s' : Simulation T κ} (h : Handled S s action s')
    (last : String → Option (Nat × List String)) :
    Follows S last (fun ident => s.announce ident (last ident) action) s s' := by
  cases h with
  | wake => exact .same (fun _ => rfl) (unchanged rfl)
  | arrival hturned =>
    cases hturned with
    | dead _ _ => exact .same (fun _ => rfl) (unchanged rfl)
    | first _ _ _ _ => exact .same (fun _ => rfl) (unchanged rfl)
    | wait _ _ _ hindex => exact absurd rfl hindex
  | deadlineDead _ _ => exact .same (fun _ => rfl) (unchanged rfl)
  | @deadline ident state _ _ =>
    exact .same (fun _ => rfl) fun _ _ hintent =>
      get?_deactivate (s := s.setStatus ident state .timeout) hintent
  | readyDead _ _ => exact .same (fun _ => rfl) (unchanged rfl)
  | ready _ _ => exact .same (fun _ => rfl) fun _ _ hintent => get?_deactivate hintent
  | @updateStale workflow index update hstale =>
    refine .same (fun ident => if_neg ?_) (unchanged rfl)
    rintro ⟨rfl, hwaits⟩
    unfold Simulation.waits at hwaits
    rw [Bool.and_eq_true, Option.any_eq_true, Option.any_eq_true] at hwaits
    obtain ⟨⟨state, hstate, hrunning⟩, intent, hintent, hindex⟩ := hwaits
    obtain ⟨state', hstate', hdead⟩ := hstale intent hintent (of_decide_eq_true hindex)
    cases hstate.symm.trans hstate'
    exact hdead (of_decide_eq_true hrunning)
  | @cancelled workflow update intent state hintent hstate hrunning hchange =>
    refine .insert (fun ident hne => ?_) (fun hbefore => ?_) rfl
    · exact (announce_update hintent hstate hrunning ident).trans (if_neg hne)
    · obtain ⟨blocks, hlast, hblocks⟩ := hbefore intent hintent
      refine ⟨blocks, ?_, hblocks⟩
      rw [announce_update hintent hstate hrunning, if_pos rfl, hlast, hchange]
      rfl
  | @revised workflow update intent state blocks hintent hstate hrunning hchange =>
    refine .insert (fun ident hne => ?_) (fun hbefore => ?_) (by rw [Simulation.schedule_eq]; rfl)
    · exact (announce_update hintent hstate hrunning ident).trans (if_neg hne)
    · obtain ⟨_, hlast, _⟩ := hbefore intent hintent
      refine ⟨blocks, ?_, rfl⟩
      rw [announce_update hintent hstate hrunning, if_pos rfl, hlast, hchange]
      rfl
  | prepared _ _ => exact .same (fun _ => rfl) (unchanged rfl)
  | @requestDead workflow index keys ready cached state hstate hdead =>
    have hnone : s.follows? workflow index = none := by
      rw [Simulation.follows?, hstate, Option.bind_some, if_neg hdead]
    exact .same (announce_demand_of_none hnone) (unchanged rfl)
  | @requestLast workflow index keys ready cached state hstate hrunning hlast =>
    have hnone : s.follows? workflow index = none := by
      rw [Simulation.follows?, hstate, Option.bind_some, if_pos hrunning, hlast]
      exact List.getElem?_eq_none (Nat.le_refl _)
    exact .same (announce_demand_of_none hnone) (unchanged rfl)
  | @requestNext workflow index keys ready cached state s' hstate hrunning hmore hturned =>
    have hrecorded : (recorded s state workflow index keys ready cached).states.get? workflow =
        some (state.record s.now index ready cached) := FinMap.get?_insert_self ..
    cases hturned with
    | dead hstate' hdead =>
      cases hrecorded.symm.trans hstate'
      exact absurd hrunning hdead
    | first _ _ _ hindex => cases hindex
    | @wait state' turn hstate' _ hturn _ =>
      cases hrecorded.symm.trans hstate'
      have hsome : s.follows? workflow index = some turn := by
        rw [Simulation.follows?, hstate, Option.bind_some, if_pos hrunning]
        exact hturn
      refine .insert (fun ident hne => if_neg hne) (fun _ => ⟨turn.intent, ?_, rfl⟩)
        (by rw [Simulation.schedule_eq]; rfl)
      show (if workflow = workflow then _ else _) = _
      rw [if_pos rfl, hsome]
      rfl

theorem Dispatched.intents {s' : Simulation T κ} (h : Dispatched S s s') : s'.intents = s.intents := by
  cases h with
  | busy _ => rfl
  | request _ _ _ _ _ _ _ _ _ => rfl
  | idle _ _ _ => rw [searched_eq]
  | preparation _ _ _ _ _ =>
    rw [searched_eq]
    rfl

omit [Sub T] [Mul T] [NatCast T] [DecidableEq κ] in
theorem start_intents (S : Setup T κ) : (start S).sim.intents = .empty := by
  have hnew : (Simulation.new : Simulation T κ).intents = .empty := rfl
  have hfold := List.foldlRecOn (motive := fun s : Simulation T κ => s.intents = .empty)
    S.workload.workflows (Simulation.enter S.workload.horizonMs) hnew fun s h workflow _ => h
  exact hfold

omit [Add T] [Sub T] [Mul T] [NatCast T] [DecidableEq κ] in
theorem handles?_eq_none {time : T} {s : Simulation T κ}
    (h : ∀ event ∈ s.events.head?, event.time ≠ time) :
    (Config.mk (.instant time) s).handles? = none := by
  unfold Config.handles?
  dsimp only
  cases hevents : s.events with
  | nil => rfl
  | cons event events => exact if_neg (h event (by rw [hevents]; rfl))

omit [Add T] [Sub T] [Mul T] [NatCast T] [DecidableEq κ] in
theorem handles?_eq_some {time : T} {s : Simulation T κ} {event : Event T κ}
    {events : List (Event T κ)} (hevents : s.events = event :: events) (htime : event.time = time) :
    (Config.mk (.instant time) s).handles? = some event.action := by
  unfold Config.handles?
  dsimp only
  rw [hevents]
  exact if_pos htime

/-- **The intents follow what is announced.** -/
theorem trail_announced : ∀ {older : List (Config T κ)} {c : Config T κ},
    Runs.Trail (next S) (start S) (c :: older) → Announced S older c.sim
  | _, _, .start => by
    intro ident intent hintent
    rw [start_intents] at hintent
    cases hintent
  | _, c', @Runs.Trail.step _ _ _ c _ older h hnext => by
    have hbefore := trail_announced h
    have hkeep : c.handles? = none → c'.sim.intents = c.sim.intents →
        Announced S (c :: older) c'.sim := by
      intro hnone hsame ident intent hintent
      rw [hsame] at hintent
      rw [announced, hnone]
      exact hbefore ident intent hintent
    cases next_stepped hnext with
    | enter _ _ => exact hkeep rfl rfl
    | leave _ => exact hkeep rfl rfl
    | done => exact hkeep rfl rfl
    | @dispatch time s s' hlater hdispatched =>
      exact hkeep (handles?_eq_none hlater) hdispatched.intents
    | @handle time s s' event events hevents htime hhandled =>
      have haction : (Config.mk (.instant time) s).handles? = some event.action :=
        handles?_eq_some hevents htime
      intro ident intent hintent
      rw [announced, haction]
      exact hhandled.follows (fun ident => announced ident older) hbefore ident intent hintent

/-! ## Steps -/

/-- No step makes a workflow run that did not. -/
theorem Stepped.running {c c' : Config T κ} (h : Stepped S c c') {ident : String}
    (hrunning : c'.sim.Running ident) : c.sim.Running ident := by
  cases h with
  | handle _ _ hhandled => exact hhandled.running hrunning
  | dispatch _ hdispatched => exact (running_congr hdispatched.states ident).1 hrunning
  | _ => exact hrunning

/-- What a step logs; jobs of running workflows start only. -/
theorem Stepped.logs {c c' : Config T κ} (h : Stepped S c c') : ∃ new,
    c'.sim.trace = c.sim.trace ++ new ∧ ∀ entry ∈ new, entry.1 = c.sim.now ∧
      ∀ ident, entry.2.starts? = some ident → c.sim.Running ident := by
  cases h with
  | handle _ _ hhandled =>
    obtain ⟨new, hlogged⟩ := hhandled.logged
    refine ⟨new, hlogged.trace, fun entry hentry => ?_⟩
    obtain ⟨htime, hstarts⟩ := hlogged.entries entry hentry
    exact ⟨htime, fun ident hsome => by rw [hstarts] at hsome; cases hsome⟩
  | dispatch _ hdispatched =>
    obtain ⟨dropped, new, hlaunched⟩ := hdispatched.launched
    refine ⟨new, hlaunched.trace, fun entry hentry => ?_⟩
    rcases hlaunched.ends with ⟨rfl, -⟩ | ⟨e, ident, finish, rfl, -, -, -, hstarts, hrunning, -⟩
    · cases hentry
    · rw [List.mem_singleton.1 hentry]
      refine ⟨rfl, fun ident' hsome => ?_⟩
      cases hstarts.symm.trans hsome
      exact hrunning
  | _ => exact ⟨[], (List.append_nil _).symm, fun _ hentry => by cases hentry⟩

/-- The jobs of a workflow that runs no more are those it has started. -/
theorem startsOf_settled {c c' : Config T κ} {ident : String} (hdead : ¬ c.sim.Running ident)
    (h : Runs.Reachable (next S) c c') :
    ¬ c'.sim.Running ident ∧ startsOf ident c'.sim.trace = startsOf ident c.sim.trace := by
  refine Runs.Reachable.invariant (P := fun c' => ¬ c'.sim.Running ident ∧
    startsOf ident c'.sim.trace = startsOf ident c.sim.trace) ⟨hdead, rfl⟩ ?_ h
  rintro c₁ c₂ ⟨hdead, hsame⟩ hnext
  have hstep := next_stepped hnext
  obtain ⟨new, htrace, hnew⟩ := hstep.logs
  refine ⟨fun hrunning => hdead (hstep.running hrunning), ?_⟩
  have hnone : startsOf ident new = [] := List.filter_eq_nil_iff.2 fun entry hentry hstarts =>
    hdead ((hnew entry hentry).2 ident (of_decide_eq_true hstarts))
  rw [htrace, startsOf, List.filter_append]
  exact (congrArg (startsOf ident c₁.sim.trace ++ ·) hnone).trans ((List.append_nil _).trans hsame)

/-- A preparation that starts is the next part of the prefix that was announced last, and no
request waits. -/
structure Allowed (S : Setup T κ) (older : List (Config T κ)) (s s' : Simulation T κ)
    (ident : String) (revision blocks : Nat) : Prop where
  queue : ∀ request ∈ s.queue, ¬ s.Running request.workflow
  current : ∃ announcement cached serial, announced ident older = some (revision, announcement) ∧
    ⟨s.now + (blocks : T) * S.workload.prefillBlockMs, serial, .finished (.speculative ident revision
      (((S.digest.blockKeys announcement).drop cached).take blocks))⟩ ∈ s'.events

theorem Stepped.allowed {older : List (Config T κ)} {c c' : Config T κ} (hstep : Stepped S c c')
    (hannounced : Announced S older c.sim) {new : List (T × LogEntry T)}
    (htrace : c'.sim.trace = c.sim.trace ++ new) {time : T} {ident : String} {revision blocks : Nat}
    (hentry : (time, .preparationStarted ident revision blocks) ∈ new) :
    Allowed S older c.sim c'.sim ident revision blocks := by
  have hnone : c'.sim.trace = c.sim.trace → Allowed S older c.sim c'.sim ident revision blocks := by
    intro hsame
    rw [List.append_right_eq_self.1 (htrace.symm.trans hsame)] at hentry
    cases hentry
  cases hstep with
  | enter _ _ => exact hnone rfl
  | leave _ => exact hnone rfl
  | done => exact hnone rfl
  | handle _ _ hhandled =>
    obtain ⟨logged, hlogged⟩ := hhandled.logged
    rw [← List.append_cancel_left (hlogged.trace.symm.trans htrace)] at hentry
    cases (hlogged.entries _ hentry).2
  | @dispatch _ s s' _ hdispatched =>
    cases hdispatched with
    | busy _ => exact hnone rfl
    | idle _ _ _ => exact hnone (by rw [searched_eq])
    | request _ _ _ _ _ _ _ _ _ =>
      rw [← List.append_cancel_left htrace] at hentry
      cases List.mem_singleton.1 hentry
    | @preparation skipped workflow intent victims cache _ hdead _ hpreparable _ =>
      have hnow : (searched S s skipped).now = s.now := by rw [searched_eq]
      have hlog : (searched S s skipped).trace = s.trace := by rw [searched_eq]
      have hnew : (searched S s skipped).trace ++ [((searched S s skipped).now,
          LogEntry.preparationStarted workflow intent.revision
            (chunk S (searched S s skipped) intent))] = s.trace ++ new := htrace
      rw [hlog] at hnew
      rw [← List.append_cancel_left hnew] at hentry
      cases List.mem_singleton.1 hentry
      obtain ⟨announcement, hlast, hkeys⟩ := hannounced ident intent hpreparable.entry
      refine ⟨fun request hrequest hrunning => ?_, announcement,
        cachedPrefix (searched S s skipped).cache intent.keys, (searched S s skipped).serial + 1,
        hlast, ?_⟩
      · obtain ⟨state, hstate, hstopped⟩ := hdead request hrequest
        obtain ⟨state', hstate', hlive⟩ := hrunning
        cases hstate.symm.trans hstate'
        exact hstopped hlive
      · have hcut : (preparationTarget S (searched S s skipped) intent).drop
            (cachedPrefix (searched S s skipped).cache intent.keys) =
              (intent.keys.drop (cachedPrefix (searched S s skipped).cache intent.keys)).take
                (chunk S (searched S s skipped) intent) := by
          rw [preparationTarget, List.drop_take, Nat.add_sub_cancel_left]
        rw [← hkeys, ← hcut, ← hnow]
        exact mem_push.2 (Or.inl rfl)

/-! ## Runs -/

/-- What an induction over a run carries. -/
structure Disciplined (S : Setup T κ) (c : Config T κ) : Prop where
  orderly : OrderlyAt S c
  chronicled : Chronicled S c.sim
  exclusive : Exclusive S c.sim
  fair : Fair c.sim
  quiet : c.sim.Prepares → Quiet c.sim

theorem Disciplined.stepped [Clock T] (hw : S.workload.Valid) {c c' : Config T κ}
    (h : Disciplined S c) (hstep : Stepped S c c') : Disciplined S c' := by
  obtain ⟨horderly, hchronicled, hexclusive, hfair, hquiet⟩ := h
  refine ⟨horderly.stepped hw hstep, hstep.chronicled horderly hchronicled, ?_, ?_, ?_⟩
  · cases hstep with
    | enter hevents _ => exact hexclusive.advance (horderly.sim.future _ (hevents ▸ List.mem_cons_self))
    | leave _ => exact hexclusive.advance horderly.now_le
    | handle hevents htime hhandled =>
      exact hexclusive.handled hevents (htime.trans (horderly.instant _ rfl).symm) hhandled
    | dispatch _ hdispatched => exact hexclusive.dispatched horderly.sim hdispatched
    | done => exact hexclusive
  · cases hstep with
    | handle hevents _ hhandled =>
      obtain ⟨new, hlogged⟩ := hhandled.logged
      exact hfair.logged hlogged rfl rfl (fun _ => hhandled.running) fun workflow index haction =>
        hchronicled.fresh horderly.sim hevents haction
    | dispatch _ hdispatched =>
      obtain ⟨dropped, new, hlaunched⟩ := hdispatched.launched
      exact hfair.launched hlaunched hdispatched.states
    | _ => exact ⟨hfair.order, hfair.distinct, hfair.kept⟩
  · cases hstep with
    | enter hevents _ =>
      exact Quiet.advance hquiet hexclusive.past (horderly.sim.future _ (hevents ▸ List.mem_cons_self))
    | leave _ => exact Quiet.advance hquiet hexclusive.past horderly.now_le
    | handle hevents htime hhandled =>
      exact Quiet.handled hquiet hevents (htime.trans (horderly.instant _ rfl).symm) hhandled
    | dispatch hlater hdispatched => exact Quiet.dispatched hquiet (horderly.settled rfl hlater) hdispatched
    | done => exact hquiet

omit [Sub T] [Mul T] [NatCast T] [DecidableEq κ] in
theorem start_log (S : Setup T κ) : (start S).sim.trace = [] ∧ (start S).sim.queue = [] ∧
    (start S).sim.busy = false := by
  have hnew : (Simulation.new : Simulation T κ).trace = [] ∧
      (Simulation.new : Simulation T κ).queue = [] ∧
      (Simulation.new : Simulation T κ).busy = false := ⟨rfl, rfl, rfl⟩
  have hfold := List.foldlRecOn (motive := fun s : Simulation T κ => s.trace = [] ∧ s.queue = [] ∧
    s.busy = false) S.workload.workflows (Simulation.enter S.workload.horizonMs) hnew
    fun s h workflow _ => h
  exact hfold

theorem disciplined_start [Clock T] (hw : S.workload.Valid) : Disciplined S (start S) := by
  obtain ⟨htrace, hqueue, hidle⟩ := start_log S
  have horderly := orderly_start hw
  have hends : ends (start S).sim.events = [] := by
    have hsingle := horderly.sim.single
    rw [hidle] at hsingle
    exact ends_eq_nil (List.length_eq_zero_iff.1 hsingle)
  refine ⟨horderly, chronicled_start hw, ⟨?_, ?_, ?_⟩, ⟨?_, ?_, ?_⟩, ?_⟩
  · rw [htrace, hends]
    rfl
  · rw [htrace]
    exact fun _ hentry => by cases hentry
  · rw [htrace]
    exact .nil
  · rw [htrace, hqueue]
    exact .slnil
  · rw [htrace]
    exact .nil
  · rw [htrace]
    exact fun _ hturn => by cases hturn
  · rintro ⟨entry, hentry, -⟩
    rw [htrace] at hentry
    cases hentry

theorem Reachable.disciplined [Clock T] (hw : S.workload.Valid) {c : Config T κ}
    (hc : Reachable S c) : Disciplined S c :=
  Runs.Reachable.invariant (P := Disciplined S) (disciplined_start hw)
    (fun _ _ h hnext => h.stepped hw (next_stepped hnext)) hc

/-- What is claimed of a point of a run that has come through the points `older`. -/
structure Discipline (S : Setup T κ) (older : List (Config T κ)) (c : Config T κ) : Prop where
  exclusive : (intervals S.workload c.sim.trace).Pairwise fun a b =>
    ∀ t ∈ Set.Ico a.1 a.2, t ∉ Set.Ico b.1 b.2
  finished : finishes c.sim.trace <+: (intervals S.workload c.sim.trace).map (·.2)
  order : (started c.sim.trace ++ c.sim.queue.map Request.turn).Sublist (readied c.sim.trace)
  distinct : (readied c.sim.trace).Nodup
  kept : ∀ turn ∈ readied c.sim.trace, c.sim.Running turn.1 →
    turn ∈ started c.sim.trace ++ c.sim.queue.map Request.turn
  quiet : c.sim.Prepares → ∀ request ∈ c.sim.queue, ¬ c.sim.Running request.workflow
  settled : ∀ ident, ¬ c.sim.Running ident → ∀ c', Runs.Reachable (next S) c c' →
    ¬ c'.sim.Running ident ∧ startsOf ident c'.sim.trace = startsOf ident c.sim.trace
  allowed : ∀ c', next S c = some c' → ∃ new, c'.sim.trace = c.sim.trace ++ new ∧
    ∀ time ident revision blocks, (time, .preparationStarted ident revision blocks) ∈ new →
      Allowed S older c.sim c'.sim ident revision blocks

/-- **Single-GPU discipline**: at every point of every run, jobs ran one at a time, requests
started in the order in which they became ready, none was queued when a preparation started,
workflows that are decided start nothing more, and what starts to be prepared was announced
last. -/
theorem single_gpu [Clock T] (hw : validate S.workload = .ok ()) {older : List (Config T κ)}
    {c : Config T κ} (h : Runs.Trail (next S) (start S) (c :: older)) : Discipline S older c := by
  have hall := Reachable.disciplined (validate_eq_ok.1 hw) h.reachable
  have hannounced := trail_announced h
  refine ⟨?_, ⟨_, hall.exclusive.finished.symm⟩, hall.fair.order, hall.fair.distinct, hall.fair.kept,
    fun hprepares => (hall.quiet hprepares).queue, fun ident hdead c' hc' =>
      startsOf_settled hdead hc', fun c' hnext => ?_⟩
  · refine hall.exclusive.ordered.imp fun {a b} hle t hta htb => ?_
    exact absurd (hta.2.trans_le hle) (not_lt.2 htb.1)
  · have hstep := next_stepped hnext
    obtain ⟨new, htrace, -⟩ := hstep.logs
    exact ⟨new, htrace, fun time ident revision blocks hentry =>
      hstep.allowed hannounced htrace hentry⟩

/-- Two requests with two preparations between them. -/
theorem single_gpu_sample : ∃ c older, Runs.Trail (next sampleSetup) (start sampleSetup) (c :: older) ∧
    intervals sampleWorkload c.sim.trace = [(0, 5), (5, 7), (8, 10), (14, 17)] ∧
      Discipline sampleSetup older c := by
  obtain ⟨c, hc⟩ := Option.isSome_iff_exists.1
    (show (Runs.iterate (next sampleSetup) 26 (start sampleSetup)).isSome by decide +kernel)
  have hintervals : (Runs.iterate (next sampleSetup) 26 (start sampleSetup)).any (fun c =>
      decide (intervals sampleWorkload c.sim.trace = [(0, 5), (5, 7), (8, 10), (14, 17)])) = true := by
    decide +kernel
  obtain ⟨older, htrail⟩ := Runs.Trail.iterate .start hc
  rw [hc, Option.any_some, decide_eq_true_eq] at hintervals
  exact ⟨c, older, htrail, hintervals, single_gpu sampleWorkload_valid htrail⟩

end ReedCode.Headroom
