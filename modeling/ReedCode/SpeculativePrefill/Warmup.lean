import ReedCode.SpeculativePrefill.Lifecycle

/-!
# Warmups are bounded, exact and end

What holds of any number of warmups, however their steps fall between each other and between
cancellations.

* `Task.Stepped`, `Task.step_stepped` — what a step of one of them is.
* `Placed`, `Prepared` — where a task stands, and what it has prepared.
* `prefill_admission` — at most four closures are on blocking threads at once;
* `prefill_dispatch` — a request goes into the pipeline at most once for a client turn, and is the
  prefix of a complete tool turn; after a cancellation none goes out any more;
* `prefill_ends` — a task that ends has left nothing running unasked, and a cancellation ends every
  task within the grace, whatever the pipeline does.
-/

set_option autoImplicit false

namespace ReedCode.SpeculativePrefill

variable {ε R M : Type} {P : Protocol M}

/-! ## Steps -/

namespace Task

/-- The message that the end of the client stream gives. -/
def turnChannel (P : Protocol M) (task : Task ε R M) : Channel M :=
  match task.wrapper.completed.finish P with
  | some assistant => .sent assistant
  | none => .closed

/-- `prefill_task` waits for the closure or the pipeline. -/
inductive Awaits : Inner → Closure → Prop
  | joining {closure : Closure} (hclosure : ∀ ids, closure ≠ .returned ids) :
      Awaits .joining closure
  | generating {closure : Closure} : Awaits .generating closure
  | draining {closure : Closure} : Awaits .draining closure

/-- **A step of a task.** -/
inductive Stepped (P : Protocol M) (s : Shared) (task : Task ε R M) : Shared → Task ε R M → Prop
  | item {item : Item} (hopen : task.wrapper.ended = false ∧ task.wrapper.dropped = false) :
      Stepped P s task s { task with
        wrapper := { task.wrapper with
          completed := item.calls.foldl CompletedToolTurn.call task.wrapper.completed
          yielded := task.wrapper.yielded ++ [item] } }
  | eof (hopen : task.wrapper.ended = false ∧ task.wrapper.dropped = false) :
      Stepped P s task s { task with
        wrapper := { task.wrapper with ended := true }
        channel := task.turnChannel P }
  | drop (hopen : task.wrapper.ended = false ∧ task.wrapper.dropped = false) :
      Stepped P s task s { task with
        wrapper := { task.wrapper with dropped := true }, channel := .closed }
  | listen (houter : task.outer = .waiting) (hlive : task.owner ∉ s.cancelled) :
      Stepped P s task s { task with outer := .receiving }
  | enter {deadline : Nat} (houter : task.outer = .warming deadline)
      (hlive : task.owner ∉ s.cancelled) :
      Stepped P s task s { task with outer := .polling deadline }
  | unheard (houter : task.outer = .receiving) : Stepped P s task s { task with outer := .waiting }
  | heard {assistant : M} (houter : task.outer = .receiving)
      (hchannel : task.channel = .sent assistant) :
      Stepped P s task s { task with
        assistant := some assistant, received := s.now
        outer := .warming (s.now + prefillTaskTimeout) }
  | pend {deadline : Nat} (houter : task.outer = .polling deadline)
      (hawaits : Awaits task.inner task.closure) :
      Stepped P s task s { task with outer := .warming deadline }
  | leave (houter : task.outer = .waiting ∧ task.owner ∈ s.cancelled ∨
      task.outer = .receiving ∧ task.channel = .closed) :
      Stepped P s task s { task with outer := .ended }
  | complete (houter : task.polls = true) (hinner : task.inner = .finished) :
      Stepped P s task s { task with outer := .ended }
  | abandon {deadline : Nat} (houter : task.outer = .winding deadline) (hlate : deadline ≤ s.now) :
      Stepped P s task s { task with outer := .ended }
  | halt {deadline : Nat} (houter : task.outer = .warming deadline)
      (hcancelled : task.owner ∈ s.cancelled) : Stepped P s task s (task.windDown s)
  | expire {deadline : Nat} (houter : task.outer = .polling deadline)
      (hawaits : Awaits task.inner task.closure) (hlate : deadline ≤ s.now) :
      Stepped P s task s (task.windDown s)
  | begin (hpolls : task.polls = true) (hinner : task.inner = .unstarted) :
      Stepped P s task s { task with inner := .admitting }
  | skip (hpolls : task.polls = true) (hinner : task.inner = .unstarted ∨
      task.inner = .admitting ∨ (task.inner = .joining ∧ task.closure = .returned none) ∨
        ∃ ids, task.inner = .built ids) :
      Stepped P s task s { task with inner := .finished }
  | grant {free : Nat} (hpolls : task.polls = true) (hinner : task.inner = .admitting)
      (hfree : s.free = free + 1) : Stepped P s task { s with free } { task with inner := .spawning }
  | spawn (hpolls : task.polls = true) (hinner : task.inner = .spawning) :
      Stepped P s task s { task with inner := .joining, closure := .queued }
  | build {ids : List Nat} (hpolls : task.polls = true) (hinner : task.inner = .joining)
      (hclosure : task.closure = .returned (some ids)) :
      Stepped P s task s { task with inner := .built ids }
  | recheck {ids : List Nat} (hpolls : task.polls = true) (hinner : task.inner = .built ids)
      (hlive : task.isCancelled s = false) : Stepped P s task s { task with inner := .rechecked ids }
  | publish {ids : List Nat} (hpolls : task.polls = true) (hinner : task.inner = .rechecked ids) :
      Stepped P s task s { task with inner := .published ids, slot := some .request }
  | generate {ids : List Nat} (hpolls : task.polls = true) (hinner : task.inner = .published ids) :
      Stepped P s task s { task with
        inner := .generating, dispatched := task.dispatched ++ [ids] }
  | accepted (hpolls : task.polls = true) (hinner : task.inner = .generating) :
      Stepped P s task s { task with inner := .draining, slot := some .response }
  | answered (hpolls : task.polls = true)
      (hinner : task.inner = .generating ∨ task.inner = .draining) :
      Stepped P s task s { task with inner := .finished }
  | check (hclosure : task.closure = .queued) (hlive : task.isCancelled s = false) :
      Stepped P s task s { task with closure := .checked }
  | support (hclosure : task.closure = .checked)
      (hsupported : task.preprocessing.tokenizer.supported = true) :
      Stepped P s task s { task with closure := .supported }
  | render {assistant : M} {text : List Char} (hclosure : task.closure = .supported)
      (hassistant : task.assistant = some assistant)
      (hrender : task.preprocessing.renderSpeculativeToolPrefix (task.request.push assistant) =
        .ok (some text)) : Stepped P s task s { task with closure := .rendered text }
  | encode {text : List Char} (hclosure : task.closure = .rendered text) :
      Stepped P s task s { task with closure := .encoding text }
  | giveUp (hrunning : task.closure.isRunning = true) :
      Stepped P s task (task.giveBack s none).1 (task.giveBack s none).2
  | giveBack {text : List Char} {ids : List Nat} (hclosure : task.closure = .encoding text)
      (hids : task.preprocessing.tokenizer.encode text = .ok ids)
      (hclosed : task.preprocessing.tokenizer.encode endToken = .ok [endTokenId])
      (hlast : ids.getLast? = some endTokenId) :
      Stepped P s task (task.giveBack s (some ids)).1 (task.giveBack s (some ids)).2

variable {s s' : Shared} {task task' : Task ε R M}

theorem stream_stepped {action : StreamAction} (h : task.stream P action = some task') :
    Stepped P s task s task' := by
  cases action with
  | item item =>
    simp only [stream] at h
    split at h
    · cases h
    · rename_i hopen
      cases h
      exact .item (by simpa using hopen)
  | eof =>
    simp only [stream] at h
    split at h
    · cases h
    · rename_i hopen
      cases h
      exact .eof (by simpa using hopen)
  | drop =>
    simp only [stream] at h
    split at h
    · cases h
    · rename_i hopen
      cases h
      exact .drop (by simpa using hopen)

theorem poll_stepped (h : task.poll s = some task') : Stepped P s task s task' := by
  unfold poll at h
  split at h
  · rename_i houter
    split at h
    · rename_i hcancelled
      cases h
      exact .leave (.inl ⟨houter, by simpa using hcancelled⟩)
    · rename_i hlive
      cases h
      exact .listen houter (by simpa using hlive)
  · rename_i deadline houter
    split at h
    · rename_i hcancelled
      cases h
      exact .halt houter (by simpa using hcancelled)
    · rename_i hlive
      cases h
      exact .enter houter (by simpa using hlive)
  · cases h

theorem settle_stepped (h : task.settle s = some task') : Stepped P s task s task' := by
  unfold settle at h
  split at h
  · rename_i houter
    split at h
    · cases h
      exact .unheard houter
    · rename_i hchannel
      cases h
      exact .leave (.inr ⟨houter, hchannel⟩)
    · rename_i assistant hchannel
      cases h
      exact .heard houter hchannel
  · rename_i deadline houter
    have hpolls : task.polls = true := by rw [polls, houter]
    -- the poll ends in a wait, unless the warmup has finished
    have hwaits : Awaits task.inner task.closure →
        (if deadline ≤ s.now then some (task.windDown s)
          else some { task with outer := .warming deadline }) = some task' →
        Stepped P s task s task' := by
      intro hawaits h
      split at h
      · rename_i hlate
        cases h
        exact .expire houter hawaits hlate
      · cases h
        exact .pend houter hawaits
    split at h
    · rename_i hinner
      cases h
      exact .complete hpolls hinner
    · rename_i hinner
      split at h
      · cases h
      · rename_i hclosure
        refine hwaits ?_ h
        rw [hinner]
        exact .joining fun ids hids => hclosure ids hids
    · rename_i hinner
      exact hwaits (hinner ▸ .generating) h
    · rename_i hinner
      exact hwaits (hinner ▸ .draining) h
    · cases h
  · rename_i deadline houter
    have hpolls : task.polls = true := by rw [polls, houter]
    split at h
    · rename_i hinner
      cases h
      exact .complete hpolls hinner
    · split at h
      · rename_i hlate
        cases h
        exact .abandon houter hlate
      · cases h
    · split at h
      · rename_i hlate
        cases h
        exact .abandon houter hlate
      · cases h
    · cases h
  · cases h

theorem advance_stepped (hpolls : task.polls = true) (h : task.advance s = some (s', task')) :
    Stepped P s task s' task' := by
  unfold advance at h
  split at h
  · rename_i hinner
    split at h
    · cases h
      exact .skip hpolls (.inl hinner)
    · cases h
      exact .begin hpolls hinner
  · rename_i hinner
    split at h
    · cases h
      exact .skip hpolls (.inr (.inl hinner))
    · rename_i free hfree
      cases h
      exact .grant hpolls hinner hfree
  · rename_i hinner
    cases h
    exact .spawn hpolls hinner
  · rename_i hinner
    split at h
    · rename_i ids hclosure
      cases h
      exact .build hpolls hinner hclosure
    · rename_i hclosure
      cases h
      exact .skip hpolls (.inr (.inr (.inl ⟨hinner, hclosure⟩)))
    · cases h
  · rename_i ids hinner
    split at h
    · cases h
      exact .skip hpolls (.inr (.inr (.inr ⟨ids, hinner⟩)))
    · rename_i hlive
      cases h
      exact .recheck hpolls hinner (eq_false_of_ne_true hlive)
  · rename_i ids hinner
    cases h
    exact .publish hpolls hinner
  · rename_i ids hinner
    cases h
    exact .generate hpolls hinner
  · cases h

theorem answer_stepped {reply : Reply} (hpolls : task.polls = true)
    (h : task.answer reply = some task') : Stepped P s task s task' := by
  cases reply with
  | accepted =>
    simp only [answer] at h
    split at h
    · rename_i hinner
      cases h
      exact .accepted hpolls hinner
    · cases h
  | refused =>
    simp only [answer] at h
    split at h
    · rename_i hinner
      cases h
      exact .answered hpolls (.inl hinner)
    · cases h
  | exhausted =>
    simp only [answer] at h
    split at h
    · rename_i hinner
      cases h
      exact .answered hpolls (.inr hinner)
    · cases h

theorem work_stepped (h : task.work s = some (s', task')) : Stepped P s task s' task' := by
  -- wherever the closure stands, it may give up
  have hgiveUp : task.closure.isRunning = true →
      some (task.giveBack s none) = some (s', task') → Stepped P s task s' task' := by
    intro hrunning h
    cases h
    exact .giveUp hrunning
  unfold work at h
  split at h
  · rename_i hclosure
    have hrunning : task.closure.isRunning = true := by rw [hclosure]; rfl
    split at h
    · exact hgiveUp hrunning h
    · rename_i hlive
      cases h
      exact .check hclosure (eq_false_of_ne_true hlive)
  · rename_i hclosure
    have hrunning : task.closure.isRunning = true := by rw [hclosure]; rfl
    split at h
    · exact hgiveUp hrunning h
    · rename_i hsupported
      cases h
      refine .support hclosure ?_
      simp only [Bool.or_eq_true, Bool.not_eq_true', not_or, Bool.not_eq_false] at hsupported
      exact hsupported.1
  · rename_i hclosure
    have hrunning : task.closure.isRunning = true := by rw [hclosure]; rfl
    split at h
    · cases h
    · rename_i assistant hassistant
      split at h
      · rename_i text hrender
        cases h
        exact .render hclosure hassistant hrender
      · exact hgiveUp hrunning h
  · rename_i text hclosure
    have hrunning : task.closure.isRunning = true := by rw [hclosure]; rfl
    split at h
    · exact hgiveUp hrunning h
    · cases h
      exact .encode hclosure
  · rename_i text hclosure
    have hrunning : task.closure.isRunning = true := by rw [hclosure]; rfl
    split at h
    · rename_i ids closed hids hclosed
      split at h
      · exact hgiveUp hrunning h
      · rename_i hboundary
        rw [not_or, not_not, not_not] at hboundary
        obtain ⟨rfl, hlast⟩ := hboundary
        cases h
        exact .giveBack hclosure hids hclosed hlast
    · exact hgiveUp hrunning h
  · cases h

/-- **Every step of a task is one of these.** -/
theorem step_stepped {act : Act} (h : task.step P s act = some (s', task')) :
    Stepped P s task s' task' := by
  -- a step that leaves the shared state alone
  have hlocal : ∀ {next : Option (Task ε R M)},
      (∀ task', next = some task' → Stepped P s task s task') →
        next.map (s, ·) = some (s', task') → Stepped P s task s' task' := by
    intro next hnext h
    obtain ⟨_, hsome, h⟩ := Option.map_eq_some_iff.1 h
    cases h
    exact hnext _ hsome
  cases act with
  | stream action => exact hlocal (fun _ => stream_stepped) h
  | poll => exact hlocal (fun _ => poll_stepped) h
  | settle => exact hlocal (fun _ => settle_stepped) h
  | advance =>
    simp only [step] at h
    split at h
    · rename_i hpolls
      exact advance_stepped hpolls h
    · cases h
  | answer reply =>
    simp only [step] at h
    split at h
    · rename_i hpolls
      exact hlocal (fun _ => answer_stepped hpolls) h
    · cases h
  | work => exact work_stepped h
  | fail =>
    simp only [step, fail] at h
    split at h
    · rename_i hrunning
      cases h
      exact .giveUp hrunning
    · cases h

end Task

/-! ## Where a task stands -/

/-- The closure has not been spawned. -/
def Inner.early : Inner → Bool
  | .unstarted | .admitting | .spawning => true
  | _ => false

/-- Nothing has gone into the pipeline. -/
def Inner.before : Inner → Bool
  | .generating | .draining | .finished => false
  | _ => true

/-- A context is published. -/
def Inner.shown : Inner → Bool
  | .published _ | .generating | .draining => true
  | _ => false

/-- The warmup was not polled yet, or waits. -/
def Inner.rests : Inner → Bool
  | .unstarted | .joining | .generating | .draining => true
  | _ => false

def Outer.live : Outer → Bool
  | .warming _ | .polling _ => true
  | _ => false

theorem Inner.before_of_rests {inner : Inner} (hrests : inner.rests = true)
    (hunshown : inner.shown = false) : inner.before = true := by
  cases inner with
  | generating => cases hunshown
  | draining => cases hunshown
  | finished => cases hrests
  | _ => rfl

theorem Task.windDown_of_none {s : Shared} {task : Task ε R M} (h : task.slot = none) :
    task.windDown s = { task with warmupCancel := true, outer := .ended } := by
  rw [windDown, h]

theorem Task.windDown_of_some {s : Shared} {task : Task ε R M} {context : Context}
    (h : task.slot = some context) :
    task.windDown s = { task with
      warmupCancel := true, slot := none, stopped := task.stopped ++ [context]
      outer := .winding (s.now + prefillWindDownGrace) } := by
  rw [windDown, h]

/-- **Where a task stands.** -/
structure Placed (task : Task ε R M) : Prop where
  idle : task.outer = .waiting ∨ task.outer = .receiving → task.inner = .unstarted
  early : task.inner.early = true → task.closure = .none
  before : task.inner.before = true → task.dispatched = [] ∧ task.stopped = []
  hidden : task.inner.before = true → task.inner.shown = false → task.slot = none
  shown : task.outer.live = true → task.inner.shown = true → task.slot.isSome = true
  quiet : task.outer.live = true → task.stopped = []
  rests : ∀ deadline, task.outer = .warming deadline → task.inner.rests = true
  winding : ∀ deadline, task.outer = .winding deadline →
    task.stopped ≠ [] ∧ task.inner.before = false
  sent : task.inner = .generating ∨ task.inner = .draining → task.dispatched ≠ []
  single : task.dispatched.length ≤ 1
  once : task.stopped.length ≤ 1
  asked : task.stopped ≠ [] → task.dispatched ≠ []
  ended : task.outer = .ended → task.dispatched = [] ∨ task.inner = .finished ∨ task.stopped ≠ []

namespace Placed

variable {s s' : Shared} {task task' : Task ε R M}

theorem polls_cases (h : task.polls = true) :
    task.outer.live = true ∨ ∃ deadline, task.outer = .winding deadline := by
  unfold Task.polls at h
  split at h
  · rename_i houter
    exact .inl (by rw [houter]; rfl)
  · rename_i deadline houter
    exact .inr ⟨deadline, houter⟩
  · cases h

/-- A warmup that is stopped is dropped if it has shown no context, else asked to stop. -/
theorem windDown (h : Placed task) (hlive : task.outer.live = true)
    (hrests : task.inner.rests = true) : Placed (task.windDown s) := by
  have hquiet := h.quiet hlive
  cases hslot : task.slot with
  | none =>
    have hunshown : task.inner.shown = false := by
      cases hshown : task.inner.shown with
      | false => rfl
      | true =>
        have hsome := h.shown hlive hshown
        rw [hslot] at hsome
        cases hsome
    have hbefore := Inner.before_of_rests hrests hunshown
    rw [Task.windDown_of_none hslot]
    exact { h with
      idle := fun houter => by rcases houter with houter | houter <;> cases houter
      hidden := fun _ _ => hslot
      shown := fun houter => by cases houter
      quiet := fun houter => by cases houter
      rests := fun _ houter => by cases houter
      winding := fun _ houter => by cases houter
      ended := fun _ => .inl (h.before hbefore).1 }
  | some context =>
    have hshown : task.inner.before = false ∧ task.dispatched ≠ [] := by
      cases hinner : task.inner with
      | generating => exact ⟨rfl, h.sent (.inl hinner)⟩
      | draining => exact ⟨rfl, h.sent (.inr hinner)⟩
      | unstarted | joining =>
        have hnone := h.hidden (by rw [hinner]; rfl) (by rw [hinner]; rfl)
        rw [hslot] at hnone
        cases hnone
      | _ =>
        rw [hinner] at hrests
        cases hrests
    rw [Task.windDown_of_some hslot]
    exact { h with
      idle := fun houter => by rcases houter with houter | houter <;> cases houter
      before := fun hbefore => by
        rw [hshown.1] at hbefore
        cases hbefore
      hidden := fun _ _ => rfl
      shown := fun houter => by cases houter
      quiet := fun houter => by cases houter
      rests := fun _ houter => by cases houter
      winding := fun _ _ => ⟨List.append_ne_nil_of_right_ne_nil _ (List.cons_ne_nil _ _), hshown.1⟩
      once := by
        show (task.stopped ++ [context]).length ≤ 1
        rw [hquiet]
        exact Nat.le_refl 1
      asked := fun _ => hshown.2
      ended := fun houter => by cases houter }

/-- The warmup moves within a poll. -/
theorem moved (h : Placed task) (hpolls : task.polls = true) (houter : task'.outer = task.outer)
    (hstopped : task'.stopped = task.stopped)
    (hearly : task'.inner.early = true → task'.closure = .none)
    (hbefore : task'.inner.before = true →
      task.inner.before = true ∧ task'.dispatched = task.dispatched)
    (hhidden : task'.inner.before = true → task'.inner.shown = false → task'.slot = none)
    (hshown : task.outer.live = true → task'.inner.shown = true → task'.slot.isSome = true)
    (hsent : task'.inner = .generating ∨ task'.inner = .draining → task'.dispatched ≠ [])
    (hsingle : task'.dispatched.length ≤ 1)
    (hkept : task.dispatched ≠ [] → task'.dispatched ≠ []) : Placed task' where
  idle := fun hidle => by
    rw [houter] at hidle
    rcases hidle with hidle | hidle <;> rw [Task.polls, hidle] at hpolls <;> cases hpolls
  early := hearly
  before := fun hnew => by
    obtain ⟨hold, hdispatched⟩ := hbefore hnew
    rw [hdispatched, hstopped]
    exact h.before hold
  hidden := hhidden
  shown := fun hlive => hshown (houter ▸ hlive)
  quiet := fun hlive => hstopped.trans (h.quiet (houter ▸ hlive))
  rests := fun deadline hwarming => by
    rw [houter] at hwarming
    rw [Task.polls, hwarming] at hpolls
    cases hpolls
  winding := fun deadline hwinding => by
    obtain ⟨hasked, hpast⟩ := h.winding deadline (houter ▸ hwinding)
    refine ⟨hstopped ▸ hasked, Bool.eq_false_iff.2 fun hnew => ?_⟩
    rw [(hbefore hnew).1] at hpast
    cases hpast
  sent := hsent
  single := hsingle
  once := hstopped ▸ h.once
  asked := fun hasked => hkept (h.asked (hstopped ▸ hasked))
  ended := fun hended => by
    rw [houter] at hended
    rw [Task.polls, hended] at hpolls
    cases hpolls

/-- The outer task moves, and the warmup stays where it is. -/
theorem outer_moved (h : Placed task) {outer : Outer}
    (hidle : outer = .waiting ∨ outer = .receiving → task.inner = .unstarted)
    (hlive : outer.live = true → task.outer.live = true ∨ task.inner = .unstarted)
    (hrests : ∀ deadline, outer = .warming deadline → task.inner.rests = true)
    (hwinding : ∀ deadline, outer ≠ .winding deadline)
    (hended : outer = .ended → task.dispatched = [] ∨ task.inner = .finished ∨ task.stopped ≠ []) :
    Placed { task with outer } :=
  { h with
    idle := hidle
    shown := fun hnew hshown => by
      rcases hlive hnew with hold | hinner
      · exact h.shown hold hshown
      · have hunshown : task.inner.shown = true := hshown
        rw [hinner] at hunshown
        cases hunshown
    quiet := fun hnew => by
      rcases hlive hnew with hold | hinner
      · exact h.quiet hold
      · exact (h.before (by rw [hinner]; rfl)).2
    rests := hrests
    winding := fun deadline houter => absurd houter (hwinding deadline)
    ended := hended }

theorem rests_of_awaits {inner : Inner} {closure : Closure} (h : Task.Awaits inner closure) :
    inner.rests = true := by
  cases h <;> rfl

/-- **A step keeps every task in its place.** -/
theorem stepped (h : Placed task) (hstep : Task.Stepped P s task s' task') : Placed task' := by
  cases hstep with
  | item _ => exact { h with }
  | eof _ => exact { h with }
  | drop _ => exact { h with }
  | listen houter _ =>
    exact h.outer_moved (fun _ => h.idle (.inl houter)) nofun nofun nofun nofun
  | unheard houter =>
    exact h.outer_moved (fun _ => h.idle (.inr houter)) nofun nofun nofun nofun
  | heard houter _ =>
    have hinner := h.idle (.inr houter)
    have hmoved : Placed { task with outer := .warming (s.now + prefillTaskTimeout) } :=
      h.outer_moved nofun (fun _ => .inr hinner) (fun _ _ => by rw [hinner]; rfl) nofun nofun
    exact { hmoved with }
  | enter houter _ =>
    exact h.outer_moved nofun (fun _ => .inl (by rw [houter]; rfl)) nofun nofun nofun
  | pend houter hawaits =>
    exact h.outer_moved nofun (fun _ => .inl (by rw [houter]; rfl))
      (fun _ _ => rests_of_awaits hawaits) nofun nofun
  | leave houter =>
    have hinner : task.inner = .unstarted := by
      rcases houter with ⟨houter, -⟩ | ⟨houter, -⟩
      · exact h.idle (.inl houter)
      · exact h.idle (.inr houter)
    exact h.outer_moved nofun nofun nofun nofun fun _ => .inl (h.before (by rw [hinner]; rfl)).1
  | complete _ hinner =>
    exact h.outer_moved nofun nofun nofun nofun fun _ => .inr (.inl hinner)
  | abandon houter _ =>
    exact h.outer_moved nofun nofun nofun nofun fun _ => .inr (.inr (h.winding _ houter).1)
  | halt houter _ => exact h.windDown (by rw [houter]; rfl) (h.rests _ houter)
  | expire houter hawaits _ => exact h.windDown (by rw [houter]; rfl) (rests_of_awaits hawaits)
  | begin hpolls hinner =>
    have hold : task.inner.before = true := by rw [hinner]; rfl
    exact h.moved hpolls rfl rfl (fun _ => h.early (by rw [hinner]; rfl)) (fun _ => ⟨hold, rfl⟩)
      (fun _ _ => h.hidden hold (by rw [hinner]; rfl)) nofun nofun h.single id
  | skip hpolls _ =>
    exact h.moved hpolls rfl rfl nofun nofun nofun nofun nofun h.single id
  | grant hpolls hinner _ =>
    have hold : task.inner.before = true := by rw [hinner]; rfl
    exact h.moved hpolls rfl rfl (fun _ => h.early (by rw [hinner]; rfl)) (fun _ => ⟨hold, rfl⟩)
      (fun _ _ => h.hidden hold (by rw [hinner]; rfl)) nofun nofun h.single id
  | spawn hpolls hinner =>
    have hold : task.inner.before = true := by rw [hinner]; rfl
    exact h.moved hpolls rfl rfl nofun (fun _ => ⟨hold, rfl⟩)
      (fun _ _ => h.hidden hold (by rw [hinner]; rfl)) nofun nofun h.single id
  | build hpolls hinner _ =>
    have hold : task.inner.before = true := by rw [hinner]; rfl
    exact h.moved hpolls rfl rfl nofun (fun _ => ⟨hold, rfl⟩)
      (fun _ _ => h.hidden hold (by rw [hinner]; rfl)) nofun nofun h.single id
  | recheck hpolls hinner _ =>
    have hold : task.inner.before = true := by rw [hinner]; rfl
    exact h.moved hpolls rfl rfl nofun (fun _ => ⟨hold, rfl⟩)
      (fun _ _ => h.hidden hold (by rw [hinner]; rfl)) nofun nofun h.single id
  | publish hpolls hinner =>
    have hold : task.inner.before = true := by rw [hinner]; rfl
    exact h.moved hpolls rfl rfl nofun (fun _ => ⟨hold, rfl⟩) (fun _ hunshown => by cases hunshown)
      (fun _ _ => rfl) nofun h.single id
  | @generate ids hpolls hinner =>
    have hold : task.inner.before = true := by rw [hinner]; rfl
    have hnone := (h.before hold).1
    refine h.moved hpolls rfl rfl nofun nofun nofun
      (fun hlive _ => h.shown hlive (by rw [hinner]; rfl))
      (fun _ => List.append_ne_nil_of_right_ne_nil _ (List.cons_ne_nil _ _)) ?_
      (fun hsome => absurd hnone hsome)
    show (task.dispatched ++ [ids]).length ≤ 1
    rw [hnone]
    exact Nat.le_refl 1
  | accepted hpolls hinner =>
    exact h.moved hpolls rfl rfl nofun nofun nofun (fun _ _ => rfl)
      (fun _ => h.sent (.inl hinner)) h.single id
  | answered hpolls _ =>
    exact h.moved hpolls rfl rfl nofun nofun nofun nofun nofun h.single id
  | check hclosure _ =>
    exact { h with early := fun hearly => by cases hclosure.symm.trans (h.early hearly) }
  | support hclosure _ =>
    exact { h with early := fun hearly => by cases hclosure.symm.trans (h.early hearly) }
  | render hclosure _ _ =>
    exact { h with early := fun hearly => by cases hclosure.symm.trans (h.early hearly) }
  | encode hclosure =>
    exact { h with early := fun hearly => by cases hclosure.symm.trans (h.early hearly) }
  | giveUp hrunning =>
    refine { h with early := fun hearly => ?_ }
    rw [h.early hearly] at hrunning
    cases hrunning
  | giveBack hclosure _ _ _ =>
    exact { h with early := fun hearly => by cases hclosure.symm.trans (h.early hearly) }

end Placed

/-! ## What a task has prepared -/

/-- The tokens of the prefix of the turn that the client got: the formatter renders it, and the
tokenizer keeps the end of a message as one token. -/
structure Prefix (P : Protocol M) (yielded : List Item) (preprocessing : PrefillPreprocessing ε R)
    (request : ChatRequest R M) (assistant : M) (text : List Char) (ids : List Nat) : Prop where
  finish : (run (yielded.flatMap Item.calls)).finish P = some assistant
  supported : preprocessing.tokenizer.supported = true
  render : preprocessing.renderSpeculativeToolPrefix (request.push assistant) = .ok (some text)
  encode : preprocessing.tokenizer.encode text = .ok ids
  closed : preprocessing.tokenizer.encode endToken = .ok [endTokenId]
  last : ids.getLast? = some endTokenId

/-- A task has a message, and the tokens of its prefix. -/
def HasPrefix (P : Protocol M) (wrapper : Wrapper) (preprocessing : PrefillPreprocessing ε R)
    (request : ChatRequest R M) (message : Option M) (ids : List Nat) : Prop :=
  ∃ assistant text, message = some assistant ∧
    Prefix P wrapper.yielded preprocessing request assistant text ids

/-- The message is that of the stream, which has ended. -/
structure Received (P : Protocol M) (wrapper : Wrapper) (assistant : M) : Prop where
  ended : wrapper.ended = true
  finish : wrapper.completed.finish P = some assistant

/-- **What a task has prepared**, wherever it keeps it. -/
structure Prepared (P : Protocol M) (task : Task ε R M) : Prop where
  completed : task.wrapper.completed = run (task.wrapper.yielded.flatMap Item.calls)
  channel : ∀ assistant, task.channel = .sent assistant → Received P task.wrapper assistant
  assistant : ∀ assistant, task.assistant = some assistant → Received P task.wrapper assistant
  supported : task.closure = .supported → task.preprocessing.tokenizer.supported = true
  rendered : ∀ text, task.closure = .rendered text ∨ task.closure = .encoding text →
    task.preprocessing.tokenizer.supported = true ∧ ∃ assistant, task.assistant = some assistant ∧
      task.preprocessing.renderSpeculativeToolPrefix (task.request.push assistant) = .ok (some text)
  returned : ∀ ids, task.closure = .returned (some ids) →
    HasPrefix P task.wrapper task.preprocessing task.request task.assistant ids
  ready : ∀ ids, task.inner = .built ids ∨ task.inner = .rechecked ids ∨
    task.inner = .published ids →
    HasPrefix P task.wrapper task.preprocessing task.request task.assistant ids
  dispatched : ∀ ids ∈ task.dispatched,
    HasPrefix P task.wrapper task.preprocessing task.request task.assistant ids

namespace Prepared

variable {s s' : Shared} {task task' : Task ε R M}

/-- While the stream is open, no message is there and nothing is prepared. -/
theorem streamed (h : Prepared P task) (hopen : task.wrapper.ended = false) {wrapper : Wrapper}
    {channel : Channel M} (hcompleted : wrapper.completed = run (wrapper.yielded.flatMap Item.calls))
    (hchannel : ∀ assistant, channel = .sent assistant → Received P wrapper assistant) :
    Prepared P { task with wrapper, channel } := by
  have hnone : ∀ assistant, task.assistant ≠ some assistant := fun assistant hsome => by
    cases hopen.symm.trans (h.assistant assistant hsome).ended
  have hnot : ∀ {ids}, ¬ HasPrefix P task.wrapper task.preprocessing task.request task.assistant ids :=
    fun hprefix => by
      obtain ⟨assistant, _, hsome, _⟩ := hprefix
      exact hnone assistant hsome
  exact {
    completed := hcompleted
    channel := hchannel
    assistant := fun assistant hsome => absurd hsome (hnone assistant)
    supported := h.supported
    rendered := h.rendered
    returned := fun ids hids => absurd (h.returned ids hids) hnot
    ready := fun ids hids => absurd (h.ready ids hids) hnot
    dispatched := fun ids hids => absurd (h.dispatched ids hids) hnot }

/-- The message arrives before anything is prepared. -/
theorem heard (h : Prepared P task) (hplaced : Placed task) (hinner : task.inner = .unstarted)
    {assistant : M} (hchannel : task.channel = .sent assistant) (received : Nat) (outer : Outer) :
    Prepared P { task with assistant := some assistant, received, outer } := by
  have hclosure : task.closure = .none := hplaced.early (by rw [hinner]; rfl)
  have hdispatched : task.dispatched = [] := (hplaced.before (by rw [hinner]; rfl)).1
  exact { h with
    assistant := fun assistant' hsome => by
      cases hsome
      exact h.channel assistant hchannel
    rendered := fun text htext => by
      rcases htext with htext | htext <;> cases hclosure.symm.trans htext
    returned := fun ids hids => by cases hclosure.symm.trans hids
    ready := fun ids hids => by
      rcases hids with hids | hids | hids <;> cases hinner.symm.trans hids
    dispatched := fun ids hids => by
      have hmem : ids ∈ task.dispatched := hids
      rw [hdispatched] at hmem
      cases hmem }

theorem windDown (h : Prepared P task) : Prepared P (task.windDown s) := by
  cases hslot : task.slot with
  | none =>
    rw [Task.windDown_of_none hslot]
    exact { h with }
  | some context =>
    rw [Task.windDown_of_some hslot]
    exact { h with }

/-- **What a task prepares is the prefix of its turn.** -/
theorem stepped (h : Prepared P task) (hplaced : Placed task)
    (hstep : Task.Stepped P s task s' task') : Prepared P task' := by
  cases hstep with
  | @item item hopen =>
    refine h.streamed hopen.1 ?_ fun assistant hsent => ?_
    · rw [h.completed, List.flatMap_append, List.flatMap_singleton]
      exact List.foldl_append.symm
    · cases hopen.1.symm.trans (h.channel assistant hsent).ended
  | eof hopen =>
    refine h.streamed hopen.1 h.completed fun assistant hsent => ⟨rfl, ?_⟩
    unfold Task.turnChannel at hsent
    split at hsent
    · rename_i assistant' hfinish
      cases hsent
      exact hfinish
    · cases hsent
  | drop hopen => exact h.streamed hopen.1 h.completed nofun
  | listen _ _ => exact { h with }
  | enter _ _ => exact { h with }
  | unheard _ => exact { h with }
  | heard houter hchannel => exact h.heard hplaced (hplaced.idle (.inr houter)) hchannel _ _
  | pend _ _ => exact { h with }
  | leave _ => exact { h with }
  | complete _ _ => exact { h with }
  | abandon _ _ => exact { h with }
  | halt _ _ => exact h.windDown
  | expire _ _ _ => exact h.windDown
  | begin _ _ => exact { h with ready := nofun }
  | skip _ _ => exact { h with ready := nofun }
  | grant _ _ _ => exact { h with ready := nofun }
  | spawn _ _ => exact { h with supported := nofun, rendered := nofun, returned := nofun, ready := nofun }
  | @build ids _ _ hclosure =>
    exact { h with
      ready := fun ids' hids => by
        rcases hids with hids | hids | hids <;> cases hids
        exact h.returned ids hclosure }
  | @recheck ids _ hinner _ =>
    exact { h with
      ready := fun ids' hids => by
        rcases hids with hids | hids | hids <;> cases hids
        exact h.ready ids (.inl hinner) }
  | @publish ids _ hinner =>
    exact { h with
      ready := fun ids' hids => by
        rcases hids with hids | hids | hids <;> cases hids
        exact h.ready ids (.inr (.inl hinner)) }
  | @generate ids _ hinner =>
    exact { h with
      ready := nofun
      dispatched := fun ids' hids => by
        rcases List.mem_append.1 hids with hids | hids
        · exact h.dispatched ids' hids
        · rw [List.mem_singleton.1 hids]
          exact h.ready ids (.inr (.inr hinner)) }
  | accepted _ _ => exact { h with ready := nofun }
  | answered _ _ => exact { h with ready := nofun }
  | check _ _ => exact { h with supported := nofun, rendered := nofun, returned := nofun }
  | support _ hsupported =>
    exact { h with supported := fun _ => hsupported, rendered := nofun, returned := nofun }
  | @render assistant text hclosure hassistant hrender =>
    exact { h with
      supported := nofun
      rendered := fun text' htext => by
        rcases htext with htext | htext <;> cases htext
        exact ⟨h.supported hclosure, assistant, hassistant, hrender⟩
      returned := nofun }
  | @encode text hclosure =>
    exact { h with
      supported := nofun
      rendered := fun text' htext => by
        rcases htext with htext | htext <;> cases htext
        exact h.rendered text (.inl hclosure)
      returned := nofun }
  | giveUp _ => exact { h with supported := nofun, rendered := nofun, returned := nofun }
  | @giveBack text ids hclosure hids hclosed hlast =>
    exact { h with
      supported := nofun
      rendered := nofun
      returned := fun ids' hids' => by
        cases hids'
        obtain ⟨hsupported, assistant, hassistant, hrender⟩ := h.rendered text (.inr hclosure)
        have hfinish := (h.assistant assistant hassistant).finish
        rw [h.completed] at hfinish
        exact ⟨assistant, text, hassistant, hfinish, hsupported, hrender, hids, hclosed, hlast⟩ }

end Prepared

/-! ## Time and tokens -/

/-- Tokens stay cancelled, and time goes on. -/
structure Shared.Later (s s' : Shared) : Prop where
  cancelled : ∀ owner ∈ s.cancelled, owner ∈ s'.cancelled
  now_le : s.now ≤ s'.now

theorem Shared.later_self (s : Shared) : s.Later s := ⟨fun _ h => h, Nat.le_refl _⟩

/-- The deadlines of a task; it is stopped by its owner or behind its time. -/
structure Timely (s : Shared) (task : Task ε R M) : Prop where
  idle : task.outer = .waiting ∨ task.outer = .receiving → task.warmupCancel = false
  warming : ∀ deadline, task.outer = .warming deadline ∨ task.outer = .polling deadline →
    deadline = task.received + prefillTaskTimeout
  winding : ∀ deadline, task.outer = .winding deadline → deadline ≤ s.now + prefillWindDownGrace
  cancelled : task.warmupCancel = true →
    task.owner ∈ s.cancelled ∨ task.received + prefillTaskTimeout ≤ s.now
  stopped : task.stopped ≠ [] → task.warmupCancel = true

namespace Timely

variable {s s' : Shared} {task task' : Task ε R M}

theorem later (h : Timely s task) (hlater : s.Later s') : Timely s' task where
  idle := h.idle
  warming := h.warming
  winding := fun deadline houter =>
    (h.winding deadline houter).trans (Nat.add_le_add_right hlater.now_le _)
  cancelled := fun hcancel =>
    (h.cancelled hcancel).imp (hlater.cancelled _) fun hlate => hlate.trans hlater.now_le
  stopped := h.stopped

theorem windDown (h : Timely s task)
    (hwhy : task.owner ∈ s.cancelled ∨ task.received + prefillTaskTimeout ≤ s.now) :
    Timely s (task.windDown s) := by
  cases hslot : task.slot with
  | none =>
    rw [Task.windDown_of_none hslot]
    exact { h with
      idle := nofun, warming := nofun, winding := nofun, cancelled := fun _ => hwhy
      stopped := fun _ => rfl }
  | some context =>
    rw [Task.windDown_of_some hslot]
    exact { h with
      idle := nofun
      warming := nofun
      winding := fun deadline houter => by
        cases houter
        exact Nat.le_refl _
      cancelled := fun _ => hwhy
      stopped := fun _ => rfl }

theorem stepped (h : Timely s task) (hstep : Task.Stepped P s task s' task') : Timely s' task' := by
  cases hstep with
  | heard houter _ =>
    exact { h with
      idle := nofun
      warming := fun deadline hnew => by
        rcases hnew with hnew | hnew <;> cases hnew
        rfl
      winding := nofun
      cancelled := fun hcancel => by cases (h.idle (.inr houter)).symm.trans hcancel }
  | listen houter _ =>
    exact { h with idle := fun _ => h.idle (.inl houter), warming := nofun, winding := nofun }
  | enter houter _ =>
    exact { h with
      idle := nofun
      warming := fun deadline hnew => by
        rcases hnew with hnew | hnew <;> cases hnew
        exact h.warming _ (.inl houter)
      winding := nofun }
  | unheard houter =>
    exact { h with idle := fun _ => h.idle (.inr houter), warming := nofun, winding := nofun }
  | pend houter _ =>
    exact { h with
      idle := nofun
      warming := fun deadline hnew => by
        rcases hnew with hnew | hnew <;> cases hnew
        exact h.warming _ (.inr houter)
      winding := nofun }
  | leave _ => exact { h with idle := nofun, warming := nofun, winding := nofun }
  | complete _ _ => exact { h with idle := nofun, warming := nofun, winding := nofun }
  | abandon _ _ => exact { h with idle := nofun, warming := nofun, winding := nofun }
  | halt _ hcancelled => exact h.windDown (.inl hcancelled)
  | expire houter _ hlate => exact h.windDown (.inr (h.warming _ (.inr houter) ▸ hlate))
  | _ => exact { h with }

end Timely

/-! ## A cancelled task -/

/-- The recheck in front of the pipeline has not been passed. -/
def Inner.undecided : Inner → Bool
  | .rechecked _ | .published _ | .generating | .draining => false
  | _ => true

/-- The token is cancelled, and nothing has gone out. -/
structure Doomed (s : Shared) (task : Task ε R M) : Prop where
  cancelled : task.isCancelled s = true
  undecided : task.inner.undecided = true
  dispatched : task.dispatched = []

theorem Doomed.later {s s' : Shared} {task : Task ε R M} (h : Doomed s task)
    (hlater : s.Later s') : Doomed s' task := by
  refine { h with cancelled := ?_ }
  have hcancelled := h.cancelled
  simp only [Task.isCancelled, Bool.or_eq_true, List.contains_iff_mem] at hcancelled ⊢
  exact hcancelled.imp_left (hlater.cancelled _)

/-- **Nothing goes out any more.** -/
theorem Doomed.stepped {s s' : Shared} {task task' : Task ε R M} (h : Doomed s task)
    (hstep : Task.Stepped P s task s' task') : Doomed s' task' := by
  have hwindDown : Doomed s (task.windDown s) := by
    cases hslot : task.slot with
    | none =>
      rw [Task.windDown_of_none hslot]
      exact { h with cancelled := Bool.or_true _ }
    | some context =>
      rw [Task.windDown_of_some hslot]
      exact { h with cancelled := Bool.or_true _ }
  cases hstep with
  | halt _ _ => exact hwindDown
  | expire _ _ _ => exact hwindDown
  | recheck _ _ hlive => cases hlive.symm.trans h.cancelled
  | publish _ hinner =>
    have hundecided := h.undecided
    rw [hinner] at hundecided
    cases hundecided
  | generate _ hinner =>
    have hundecided := h.undecided
    rw [hinner] at hundecided
    cases hundecided
  | accepted _ hinner =>
    have hundecided := h.undecided
    rw [hinner] at hundecided
    cases hundecided
  | begin _ _ => exact { h with undecided := rfl }
  | skip _ _ => exact { h with undecided := rfl }
  | grant _ _ _ => exact { h with undecided := rfl }
  | spawn _ _ => exact { h with undecided := rfl }
  | build _ _ _ => exact { h with undecided := rfl }
  | answered _ _ => exact { h with undecided := rfl }
  | _ => exact { h with }

/-! ## All warmups -/

/-- The permits a task holds, its closure included. -/
def Task.held (task : Task ε R M) : Nat :=
  (if task.inner = .spawning then 1 else 0) + if task.closure.isRunning then 1 else 0

theorem Task.held_giveBack {s : Shared} {task : Task ε R M} (hrunning : task.closure.isRunning = true)
    (ids : Option (List Nat)) :
    (task.giveBack s ids).1.free + (task.giveBack s ids).2.held = s.free + task.held := by
  have hfree : (task.giveBack s ids).1.free = s.free + 1 := rfl
  have hafter : (task.giveBack s ids).2.held = if task.inner = .spawning then 1 else 0 := rfl
  have hbefore : task.held = (if task.inner = .spawning then 1 else 0) + 1 := by
    rw [held, hrunning, if_pos rfl]
  rw [hfree, hafter, hbefore]
  omega

/-- **A permit is held until its closure returns.** -/
theorem Placed.held_stepped {s s' : Shared} {task task' : Task ε R M} (h : Placed task)
    (hstep : Task.Stepped P s task s' task') : s'.free + task'.held = s.free + task.held := by
  have hwindDown : (task.windDown s).held = task.held := by
    cases hslot : task.slot with
    | none => rw [Task.windDown_of_none hslot]; rfl
    | some context => rw [Task.windDown_of_some hslot]; rfl
  cases hstep with
  | halt _ _ => rw [hwindDown]
  | expire _ _ _ => rw [hwindDown]
  | begin _ hinner => simp [Task.held, hinner]
  | skip _ hinner =>
    rcases hinner with hinner | hinner | ⟨hinner, -⟩ | ⟨_, hinner⟩ <;> simp [Task.held, hinner]
  | grant _ hinner hfree =>
    simp only [Task.held, hinner, hfree, reduceCtorEq, if_true, if_false]
    omega
  | spawn _ hinner =>
    have hclosure := h.early (by rw [hinner]; rfl)
    simp [Task.held, hinner, hclosure, Closure.isRunning]
  | build _ hinner _ => simp [Task.held, hinner]
  | recheck _ hinner _ => simp [Task.held, hinner]
  | publish _ hinner => simp [Task.held, hinner]
  | generate _ hinner => simp [Task.held, hinner]
  | accepted _ hinner => simp [Task.held, hinner]
  | answered _ hinner => rcases hinner with hinner | hinner <;> simp [Task.held, hinner]
  | check hclosure _ => simp [Task.held, hclosure, Closure.isRunning]
  | support hclosure _ => simp [Task.held, hclosure, Closure.isRunning]
  | render hclosure _ _ => simp [Task.held, hclosure, Closure.isRunning]
  | encode hclosure => simp [Task.held, hclosure, Closure.isRunning]
  | giveUp hrunning => exact Task.held_giveBack hrunning none
  | @giveBack _ ids hclosure _ _ _ =>
    exact Task.held_giveBack (by rw [hclosure]; rfl) (some ids)
  | _ => rfl

theorem Task.Stepped.later {s s' : Shared} {task task' : Task ε R M}
    (hstep : Task.Stepped P s task s' task') : s.Later s' := by
  cases hstep <;> exact ⟨fun _ h => h, Nat.le_refl _⟩

/-- What holds of every task. -/
structure Warm (P : Protocol M) (s : Shared) (task : Task ε R M) : Prop where
  placed : Placed task
  prepared : Prepared P task
  timely : Timely s task
  wanted : task.request.speculativePrefill = some true ∧ task.request.n.getD 1 = 1 ∧
    task.request.continueFinalMessage ≠ some true

theorem prefills_rely : Processes.Rely (prefills ε R P) Shared.Later where
  own h := (Task.step_stepped h).later
  env := by
    intro s b s' h
    cases b with
    | cancel owners =>
      cases h
      exact ⟨fun _ => List.mem_append_right owners, Nat.le_refl _⟩
    | tick ms =>
      cases h
      exact ⟨fun _ h => h, Nat.le_add_right _ _⟩
  enter := by
    intro s call s' task h
    obtain ⟨_, -, h⟩ := Option.map_eq_some_iff.1 h
    cases h
    exact s.later_self

/-- The request and the owner of a task never change. -/
theorem Task.Stepped.fixed {s s' : Shared} {task task' : Task ε R M}
    (hstep : Task.Stepped P s task s' task') :
    task'.request = task.request ∧ task'.owner = task.owner := by
  have hwindDown : (task.windDown s).request = task.request ∧
      (task.windDown s).owner = task.owner := by
    cases hslot : task.slot with
    | none => rw [Task.windDown_of_none hslot]; exact ⟨rfl, rfl⟩
    | some context => rw [Task.windDown_of_some hslot]; exact ⟨rfl, rfl⟩
  cases hstep with
  | halt _ _ => exact hwindDown
  | expire _ _ _ => exact hwindDown
  | _ => exact ⟨rfl, rfl⟩

theorem warm_stable : Processes.Stable (prefills ε R P) Shared.Later (Warm P) where
  own := by
    intro s task act s' task' h hown
    have hstep := Task.step_stepped hown
    exact ⟨h.placed.stepped hstep, h.prepared.stepped h.placed hstep, h.timely.stepped hstep,
      hstep.fixed.1 ▸ h.wanted⟩
  others h hlater := { h with timely := h.timely.later hlater }

theorem warm_enter {s s' : Shared} {call : Enter ε R M} {task : Task ε R M}
    (h : (prefills ε R P).enter s call = some (s', task)) : Warm P s' task := by
  obtain ⟨task', hwrapped, h⟩ := Option.map_eq_some_iff.1 h
  cases h
  unfold maybeWrapStream at hwrapped
  split at hwrapped
  · rename_i hwanted
    simp only [wrapped, Bool.and_eq_true, beq_iff_eq, bne_iff_ne] at hwanted
    obtain ⟨⟨⟨hhint, -⟩, hn⟩, hfinal⟩ := hwanted
    cases hwrapped
    refine ⟨⟨fun _ => rfl, fun _ => rfl, fun _ => ⟨rfl, rfl⟩, fun _ _ => rfl, nofun, nofun, nofun,
        nofun, nofun, Nat.zero_le _, Nat.zero_le _, fun hasked => absurd rfl hasked, nofun⟩,
      ⟨rfl, nofun, nofun, nofun, nofun, nofun, nofun, nofun⟩,
      ⟨fun _ => rfl, nofun, nofun, nofun, fun hstopped => absurd rfl hstopped⟩, ?_, hn, hfinal⟩
    cases hgiven : call.request.speculativePrefill with
    | none =>
      rw [hgiven] at hhint
      cases hhint
    | some given =>
      rw [hgiven] at hhint
      exact congrArg some hhint
  · cases hwrapped

theorem warm_of_run {actions : List (Processes.Action Task.Act Env (Enter ε R M))}
    {w : Processes.World Shared (Task ε R M)}
    (hrun : Runs.run (prefills ε R P).step noPrefills actions = some w) :
    ∀ task ∈ w.processes, Warm P w.shared task :=
  warm_stable.run_all prefills_rely warm_enter (List.forall_mem_nil _) hrun

/-! ## Admission -/

theorem countP_le_sum {α : Type} {p : α → Bool} {f : α → Nat} (hf : ∀ x, p x = true → 1 ≤ f x) :
    ∀ xs : List α, xs.countP p ≤ (xs.map f).sum
  | [] => Nat.le_refl 0
  | x :: xs => by
    have hrest := countP_le_sum hf xs
    rw [List.map_cons, List.sum_cons, List.countP_cons]
    split
    · rename_i hx
      have hone := hf x hx
      omega
    · omega

/-- **Admission.**  However the warmups of any number of owners are interleaved, cancelled and
abandoned, every permit is free or with a task, and at most four closures run on blocking threads,
those of tasks that have ended included. -/
theorem prefill_admission {actions : List (Processes.Action Task.Act Env (Enter ε R M))}
    {w : Processes.World Shared (Task ε R M)}
    (hrun : Runs.run (prefills ε R P).step noPrefills actions = some w) :
    w.shared.free + (w.processes.map Task.held).sum = maxBlockingPrefills ∧
      w.processes.countP (·.closure.isRunning) ≤ maxBlockingPrefills := by
  have haccount : Processes.Account (prefills ε R P) (Warm P) Shared.free Task.held := by
    refine ⟨fun h hown => h.placed.held_stepped (Task.step_stepped hown), ?_, ?_⟩
    · intro s b s' h
      cases b <;> cases h <;> rfl
    · intro s call s' task h
      obtain ⟨task', hwrapped, h⟩ := Option.map_eq_some_iff.1 h
      cases h
      unfold maybeWrapStream at hwrapped
      split at hwrapped
      · cases hwrapped
        rfl
      · cases hwrapped
  have htotal := haccount.run warm_stable prefills_rely warm_enter (List.forall_mem_nil _) hrun
  have hsum : w.shared.free + (w.processes.map Task.held).sum = maxBlockingPrefills := htotal
  refine ⟨hsum, ?_⟩
  have hcount := countP_le_sum (p := fun task : Task ε R M => task.closure.isRunning)
    (f := Task.held) (fun task hrunning => by simp [Task.held, hrunning]) w.processes
  omega

/-! ## Dispatch -/

/-- What goes into the pipeline for a client stream. -/
structure Dispatch (P : Protocol M) (task : Task ε R M) : Prop where
  single : task.dispatched.length ≤ 1
  wanted : task.request.speculativePrefill = some true ∧ task.request.n.getD 1 = 1 ∧
    task.request.continueFinalMessage ≠ some true
  turn : ∀ ids ∈ task.dispatched, task.wrapper.ended = true ∧
    Turn P.fromStr (task.wrapper.yielded.flatMap Item.calls) ∧ ∃ assistant text,
      Prefix P task.wrapper.yielded task.preprocessing task.request assistant text ids

/-- **Dispatch.**  A request goes into the pipeline at most once for a client turn, only when the
client got the whole stream and it was one complete tool turn, and it is the prefix of that turn.
Once a token is cancelled, a warmup that has not passed its recheck never sends one. -/
theorem prefill_dispatch {actions : List (Processes.Action Task.Act Env (Enter ε R M))}
    {w : Processes.World Shared (Task ε R M)}
    (hrun : Runs.run (prefills ε R P).step noPrefills actions = some w) :
    (∀ task ∈ w.processes, Dispatch P task) ∧
    ∀ (i : Nat) (task : Task ε R M), w.processes[i]? = some task → Doomed w.shared task →
      ∀ later w', Runs.run (prefills ε R P).step w later = some w' →
        ∃ task' : Task ε R M, w'.processes[i]? = some task' ∧ task'.dispatched = [] := by
  refine ⟨fun task htask => ?_, fun i task hget hdoomed later w' hlater => ?_⟩
  · have hwarm := warm_of_run hrun task htask
    refine ⟨hwarm.placed.single, hwarm.wanted, fun ids hids => ?_⟩
    obtain ⟨assistant, text, hassistant, hprefix⟩ := hwarm.prepared.dispatched ids hids
    exact ⟨(hwarm.prepared.assistant assistant hassistant).ended, (turn_of_finish hprefix.finish).1,
      assistant, text, hprefix⟩
  · have hstable : Processes.Stable (prefills ε R P) Shared.Later Doomed :=
      ⟨fun h hown => h.stepped (Task.step_stepped hown), fun h hrely => h.later hrely⟩
    obtain ⟨task', hget', hdoomed'⟩ := hstable.run prefills_rely hget hdoomed hlater
    exact ⟨task', hget', hdoomed'.dispatched⟩

/-! ## The end of a task -/

/-- How many steps `prefill_task` makes at most until it waits, when its token is cancelled. -/
def Inner.left (closure : Closure) : Inner → Nat
  | .unstarted => 1
  | .admitting => 2
  | .spawning => 1
  | .joining => match closure with
    | .returned _ => 2
    | _ => 0
  | .built _ => 1
  | .rechecked _ => 2
  | .published _ => 1
  | _ => 0

/-- How far a cancelled task is from its end. -/
def Task.rank (s : Shared) (task : Task ε R M) : Nat :=
  match task.outer with
  | .ended => 0
  | .waiting => 1
  | .winding deadline => if task.inner = .finished ∨ deadline ≤ s.now then 1 else 2
  | .warming _ => 3
  | .receiving => 4
  | .polling _ => 4 + task.inner.left task.closure

/-- How long it may have to wait. -/
def Task.wait (s : Shared) (task : Task ε R M) : Nat :=
  match task.outer with
  | .ended => 0
  | .winding deadline => deadline - s.now
  | _ => prefillWindDownGrace

section Ends

variable {s : Shared} {task : Task ε R M}

theorem wait_le (h : Timely s task) : task.wait s ≤ prefillWindDownGrace := by
  unfold Task.wait
  split
  · exact Nat.zero_le _
  · rename_i deadline houter
    have hle := h.winding deadline houter
    omega
  · exact Nat.le_refl _

theorem rank_windDown (s : Shared) (task : Task ε R M) :
    (task.windDown s).rank s ≤ 2 ∧ (task.windDown s).wait s ≤ prefillWindDownGrace := by
  cases hslot : task.slot with
  | none =>
    rw [Task.windDown_of_none hslot]
    exact ⟨Nat.zero_le _, Nat.zero_le _⟩
  | some context =>
    rw [Task.windDown_of_some hslot]
    refine ⟨?_, ?_⟩
    · simp only [Task.rank]
      split <;> omega
    · simp only [Task.wait]
      omega

/-- A step of the task itself, or of the clock. -/
inductive Task.Nudge
  | poll
  | settle
  | advance
  | tick (ms : Nat)

def Task.Nudge.action (i : Nat) : Task.Nudge → Processes.Action Task.Act Env (Enter ε R M)
  | .poll => .own i .poll
  | .settle => .own i .settle
  | .advance => .own i .advance
  | .tick ms => .env (.tick ms)

def Task.Nudge.ms : Task.Nudge → Nat
  | .tick ms => ms
  | _ => 0

/-- A task and what is shared, behind a nudge. -/
def Task.nudge (P : Protocol M) (s : Shared) (task : Task ε R M) :
    Task.Nudge → Option (Shared × Task ε R M)
  | .poll => task.step P s .poll
  | .settle => task.step P s .settle
  | .advance => task.step P s .advance
  | .tick ms => some ({ s with now := s.now + ms }, task)

/-- A nudge that brings a task nearer to its end. -/
def Task.Nears (P : Protocol M) (s : Shared) (task : Task ε R M) (nudge : Task.Nudge) : Prop :=
  ∃ s' task', task.nudge P s nudge = some (s', task') ∧ task'.rank s' < task.rank s ∧
    nudge.ms + task'.wait s' ≤ task.wait s

/-- While it waits in a poll, a task goes back to sleep or winds down. -/
theorem nears_settle {deadline : Nat} (houter : task.outer = .polling deadline)
    (hawaits : Task.Awaits task.inner task.closure) : task.Nears P s .settle := by
  have hrank : 4 ≤ task.rank s := by
    rw [Task.rank, houter]
    exact Nat.le_add_right _ _
  have hwait : task.wait s = prefillWindDownGrace := by rw [Task.wait, houter]
  have hsettle : task.settle s = if deadline ≤ s.now then some (task.windDown s)
      else some { task with outer := .warming deadline } := by
    unfold Task.settle
    rw [houter]
    generalize hinner : task.inner = inner at hawaits
    generalize hclosure : task.closure = closure at hawaits
    cases hawaits with
    | joining hnot =>
      cases closure with
      | returned ids => exact absurd rfl (hnot ids)
      | _ => rfl
    | generating => rfl
    | draining => rfl
  obtain ⟨hdown, hgrace⟩ := rank_windDown s task
  by_cases hlate : deadline ≤ s.now
  · refine ⟨s, task.windDown s, ?_, hdown.trans_lt (by omega), ?_⟩
    · rw [Task.nudge, Task.step, hsettle, if_pos hlate]
      rfl
    · rw [hwait]
      exact (Nat.zero_add _).trans_le hgrace
  · refine ⟨s, { task with outer := .warming deadline }, ?_, ?_, ?_⟩
    · rw [Task.nudge, Task.step, hsettle, if_neg hlate]
      rfl
    · exact lt_of_lt_of_le (Nat.lt_succ_self 3) hrank
    · rw [hwait]
      exact Nat.le_of_eq (Nat.zero_add _)

/-- In a poll, a cancelled task moves on. -/
theorem nears_polling {deadline : Nat} (houter : task.outer = .polling deadline)
    (hcancelled : task.isCancelled s = true) : ∃ nudge, task.Nears P s nudge := by
  have hpolls : task.polls = true := by rw [Task.polls, houter]
  have hrank : task.rank s = 4 + task.inner.left task.closure := by rw [Task.rank, houter]
  have hwait : task.wait s = prefillWindDownGrace := by rw [Task.wait, houter]
  -- a step within the poll
  have hadvance : ∀ (s' : Shared) (task' : Task ε R M), task.advance s = some (s', task') →
      task'.outer = .polling deadline → task'.inner.left task'.closure < task.inner.left task.closure →
        ∃ nudge, task.Nears P s nudge := by
    intro s' task' hstep houter' hleft
    refine ⟨.advance, s', task', ?_, ?_, ?_⟩
    · rw [Task.nudge, Task.step, if_pos hpolls, hstep]
    · rw [hrank, Task.rank, houter']
      exact Nat.add_lt_add_left hleft 4
    · rw [hwait, Task.wait, houter']
      exact Nat.le_of_eq (Nat.zero_add _)
  cases hinner : task.inner with
  | unstarted =>
    refine hadvance s { task with inner := .finished } ?_ houter ?_
    · simp only [Task.advance, hinner, hcancelled, if_true]
    · rw [hinner]
      exact Nat.zero_lt_one
  | admitting =>
    cases hfree : s.free with
    | zero =>
      refine hadvance s { task with inner := .finished } ?_ houter ?_
      · simp only [Task.advance, hinner, hfree]
      · rw [hinner]
        exact Nat.zero_lt_two
    | succ free =>
      refine hadvance { s with free } { task with inner := .spawning } ?_ houter ?_
      · simp only [Task.advance, hinner, hfree]
      · rw [hinner]
        exact Nat.one_lt_two
  | spawning =>
    refine hadvance s { task with inner := .joining, closure := .queued } ?_ houter ?_
    · simp only [Task.advance, hinner]
    · rw [hinner]
      exact Nat.zero_lt_one
  | joining =>
    by_cases hreturned : ∃ ids, task.closure = .returned ids
    · obtain ⟨ids, hclosure⟩ := hreturned
      cases ids with
      | none =>
        refine hadvance s { task with inner := .finished } ?_ houter ?_
        · simp only [Task.advance, hinner, hclosure]
        · rw [hinner, hclosure]
          exact Nat.zero_lt_two
      | some ids =>
        refine hadvance s { task with inner := .built ids } ?_ houter ?_
        · simp only [Task.advance, hinner, hclosure]
        · rw [hinner, hclosure]
          exact Nat.one_lt_two
    · refine ⟨.settle, nears_settle houter ?_⟩
      rw [hinner]
      exact .joining fun ids hids => hreturned ⟨ids, hids⟩
  | built ids =>
    refine hadvance s { task with inner := .finished } ?_ houter ?_
    · simp only [Task.advance, hinner, hcancelled, if_true]
    · rw [hinner]
      exact Nat.zero_lt_one
  | rechecked ids =>
    refine hadvance s { task with inner := .published ids, slot := some .request } ?_ houter ?_
    · simp only [Task.advance, hinner]
    · rw [hinner]
      exact Nat.one_lt_two
  | published ids =>
    refine hadvance s
      { task with inner := .generating, dispatched := task.dispatched ++ [ids] } ?_ houter ?_
    · simp only [Task.advance, hinner]
    · rw [hinner]
      exact Nat.zero_lt_one
  | generating => exact ⟨.settle, nears_settle houter (hinner ▸ .generating)⟩
  | draining => exact ⟨.settle, nears_settle houter (hinner ▸ .draining)⟩
  | finished =>
    refine ⟨.settle, s, { task with outer := .ended }, ?_, ?_, Nat.zero_le _⟩
    · simp only [Task.nudge, Task.step, Task.settle, houter, hinner, Option.map_some]
    · rw [hrank]
      exact Nat.lt_of_lt_of_le (Nat.zero_lt_succ 3) (Nat.le_add_right _ _)

/-- **A cancelled task moves on**, whatever the pipeline and the blocking threads do. -/
theorem nears (hplaced : Placed task) (htimely : Timely s task) (hcancelled : task.owner ∈ s.cancelled)
    (hended : task.outer ≠ .ended) : ∃ nudge, task.Nears P s nudge := by
  have hcontains : s.cancelled.contains task.owner = true := List.contains_iff_mem.2 hcancelled
  cases houter : task.outer with
  | ended => exact absurd houter hended
  | waiting =>
    refine ⟨.poll, s, { task with outer := .ended }, ?_, ?_, Nat.zero_le _⟩
    · simp only [Task.nudge, Task.step, Task.poll, houter, hcontains, if_true, Option.map_some]
    · rw [Task.rank, Task.rank, houter]
      exact Nat.zero_lt_one
  | receiving =>
    have hwait : task.wait s = prefillWindDownGrace := by rw [Task.wait, houter]
    have hrank : task.rank s = 4 := by rw [Task.rank, houter]
    cases hchannel : task.channel with
    | waiting =>
      refine ⟨.settle, s, { task with outer := .waiting }, ?_, ?_, ?_⟩
      · simp only [Task.nudge, Task.step, Task.settle, houter, hchannel, Option.map_some]
      · rw [hrank]
        exact (by decide : 1 < 4)
      · rw [hwait]
        exact Nat.le_of_eq (Nat.zero_add _)
    | closed =>
      refine ⟨.settle, s, { task with outer := .ended }, ?_, ?_, Nat.zero_le _⟩
      · simp only [Task.nudge, Task.step, Task.settle, houter, hchannel, Option.map_some]
      · rw [hrank]
        exact (by decide : 0 < 4)
    | sent assistant =>
      refine ⟨.settle, s, { task with
        assistant := some assistant, received := s.now
        outer := .warming (s.now + prefillTaskTimeout) }, ?_, ?_, ?_⟩
      · simp only [Task.nudge, Task.step, Task.settle, houter, hchannel, Option.map_some]
      · rw [hrank]
        exact (by decide : 3 < 4)
      · rw [hwait]
        exact Nat.le_of_eq (Nat.zero_add _)
  | warming deadline =>
    obtain ⟨hdown, hgrace⟩ := rank_windDown s task
    refine ⟨.poll, s, task.windDown s, ?_, ?_, ?_⟩
    · simp only [Task.nudge, Task.step, Task.poll, houter, hcontains, if_true, Option.map_some]
    · rw [show task.rank s = 3 by rw [Task.rank, houter]]
      exact Nat.lt_succ_of_le hdown
    · rw [show task.wait s = prefillWindDownGrace by rw [Task.wait, houter]]
      exact (Nat.zero_add _).trans_le hgrace
  | polling deadline =>
    exact nears_polling houter (by rw [Task.isCancelled, hcontains, Bool.true_or])
  | winding deadline =>
    have hpast := (hplaced.winding deadline houter).2
    by_cases hsettles : task.inner = .finished ∨ deadline ≤ s.now
    · have hrank : task.rank s = 1 := by
        simp only [Task.rank, houter]
        exact if_pos hsettles
      refine ⟨.settle, s, { task with outer := .ended }, ?_, hrank ▸ Nat.zero_lt_one, Nat.zero_le _⟩
      cases hinner : task.inner with
      | finished => simp only [Task.nudge, Task.step, Task.settle, houter, hinner, Option.map_some]
      | generating =>
        have hlate := hsettles.resolve_left (by rw [hinner]; exact nofun)
        simp only [Task.nudge, Task.step, Task.settle, houter, hinner, hlate, if_true,
          Option.map_some]
      | draining =>
        have hlate := hsettles.resolve_left (by rw [hinner]; exact nofun)
        simp only [Task.nudge, Task.step, Task.settle, houter, hinner, hlate, if_true,
          Option.map_some]
      | _ =>
        rw [hinner] at hpast
        cases hpast
    · refine ⟨.tick (deadline - s.now), { s with now := s.now + (deadline - s.now) }, task, rfl, ?_, ?_⟩
      · rw [not_or, not_le] at hsettles
        have hnow : deadline ≤ s.now + (deadline - s.now) := by omega
        simp only [Task.rank, houter]
        rw [if_pos (.inr hnow), if_neg (not_or.2 ⟨hsettles.1, not_le.2 hsettles.2⟩)]
        exact Nat.one_lt_two
      · simp only [Task.Nudge.ms, Task.wait, houter]
        omega

/-- A nudge is a step of the system. -/
theorem nudge_step {nudge : Task.Nudge} {i : Nat} {w : Processes.World Shared (Task ε R M)}
    {s' : Shared} {task' : Task ε R M} (hget : w.processes[i]? = some task)
    (hnudge : task.nudge P w.shared nudge = some (s', task')) :
    (prefills ε R P).step w (nudge.action i) = some ⟨s', w.processes.set i task'⟩ := by
  cases nudge with
  | poll => exact Processes.System.step_own hget hnudge
  | settle => exact Processes.System.step_own hget hnudge
  | advance => exact Processes.System.step_own hget hnudge
  | tick ms =>
    cases hnudge
    obtain ⟨hi, hget⟩ := List.getElem?_eq_some_iff.1 hget
    have hset : w.processes.set i task = w.processes := by rw [← hget, List.set_getElem_self]
    rw [hset]
    exact Processes.System.step_env rfl

theorem nudge_cases {nudge : Task.Nudge} {s' : Shared} {task' : Task ε R M}
    (h : task.nudge P s nudge = some (s', task')) :
    Task.Stepped P s task s' task' ∨ s.Later s' ∧ task' = task := by
  cases nudge with
  | poll =>
    have hstep : task.step P s .poll = some (s', task') := h
    exact .inl (Task.step_stepped hstep)
  | settle =>
    have hstep : task.step P s .settle = some (s', task') := h
    exact .inl (Task.step_stepped hstep)
  | advance =>
    have hstep : task.step P s .advance = some (s', task') := h
    exact .inl (Task.step_stepped hstep)
  | tick ms =>
    cases h
    exact .inr ⟨⟨fun _ h => h, Nat.le_add_right _ _⟩, rfl⟩

/-- A cancelled task is nudged to its end. -/
theorem ends_of_rank : ∀ (n : Nat) {i : Nat} {w : Processes.World Shared (Task ε R M)}
    {task : Task ε R M}, w.processes[i]? = some task → Placed task → Timely w.shared task →
      task.owner ∈ w.shared.cancelled → task.rank w.shared ≤ n →
        ∃ (nudges : List Task.Nudge) (w' : Processes.World Shared (Task ε R M))
          (task' : Task ε R M), nudges.length ≤ n ∧
            (nudges.map Task.Nudge.ms).sum ≤ task.wait w.shared ∧
            Runs.run (prefills ε R P).step w (nudges.map (·.action i)) = some w' ∧
            w'.processes[i]? = some task' ∧ task'.outer = .ended := by
  intro n
  induction n with
  | zero =>
    intro i w task hget hplaced htimely hcancelled hrank
    by_cases hended : task.outer = .ended
    · exact ⟨[], w, task, Nat.le_refl 0, Nat.zero_le _, rfl, hget, hended⟩
    · obtain ⟨nudge, s', task', -, hlt, -⟩ := nears (P := P) hplaced htimely hcancelled hended
      exact absurd hlt (by omega)
  | succ n ih =>
    intro i w task hget hplaced htimely hcancelled hrank
    by_cases hended : task.outer = .ended
    · exact ⟨[], w, task, Nat.zero_le _, Nat.zero_le _, rfl, hget, hended⟩
    · obtain ⟨nudge, s', task', hnudge, hlt, hms⟩ :=
        nears (P := P) hplaced htimely hcancelled hended
      obtain ⟨hplaced', htimely', hcancelled'⟩ : Placed task' ∧ Timely s' task' ∧
          task'.owner ∈ s'.cancelled := by
        rcases nudge_cases hnudge with hstep | ⟨hlater, rfl⟩
        · exact ⟨hplaced.stepped hstep, htimely.stepped hstep,
            hstep.fixed.2 ▸ hstep.later.cancelled _ hcancelled⟩
        · exact ⟨hplaced, htimely.later hlater, hlater.cancelled _ hcancelled⟩
      obtain ⟨hi, -⟩ := List.getElem?_eq_some_iff.1 hget
      have hget' : (w.processes.set i task')[i]? = some task' := List.getElem?_set_self hi
      have hstep := nudge_step hget hnudge
      obtain ⟨nudges, w', last, hlength, hsum, hrun, hlast, hend⟩ :=
        ih (w := ⟨s', w.processes.set i task'⟩) hget' hplaced' htimely' hcancelled' (by
          show task'.rank s' ≤ n
          omega)
      refine ⟨nudge :: nudges, w', last, Nat.succ_le_succ hlength, ?_, ?_, hlast, hend⟩
      · rw [List.map_cons, List.sum_cons]
        have hle : (nudges.map Task.Nudge.ms).sum ≤ task'.wait s' := hsum
        omega
      · exact (Runs.run_cons_eq_some _).2 ⟨_, hstep, hrun⟩

theorem left_le (closure : Closure) (inner : Inner) : inner.left closure ≤ 2 := by
  cases inner with
  | joining => cases closure <;> simp [Inner.left]
  | _ => simp [Inner.left]

theorem rank_le (s : Shared) (task : Task ε R M) : task.rank s ≤ 6 := by
  have hleft := left_le task.closure task.inner
  unfold Task.rank
  split <;> try omega
  split <;> omega

end Ends

/-- What a task leaves behind: one that was asked to stop had sent a request, and was cancelled or
behind its time; one that has ended has left no request both unfinished and unasked. -/
structure Left (s : Shared) (task : Task ε R M) : Prop where
  once : task.stopped.length ≤ 1
  asked : task.stopped ≠ [] → task.dispatched ≠ [] ∧
    (task.owner ∈ s.cancelled ∨ task.received + prefillTaskTimeout ≤ s.now)
  settled : task.outer = .ended → task.dispatched ≠ [] →
    task.inner = .finished ∨ task.stopped ≠ []

/-- **The end.**  No task leaves a request running unasked, and none is stopped without reason.  From
wherever it stands, the task of a cancelled owner ends by at most six steps of its own and of the
clock, within the grace, without any step of the client, the pipeline or the blocking threads. -/
theorem prefill_ends {actions : List (Processes.Action Task.Act Env (Enter ε R M))}
    {w : Processes.World Shared (Task ε R M)}
    (hrun : Runs.run (prefills ε R P).step noPrefills actions = some w) :
    (∀ task ∈ w.processes, Left w.shared task) ∧
    ∀ (i : Nat) (task : Task ε R M), w.processes[i]? = some task → task.owner ∈ w.shared.cancelled →
      ∃ (nudges : List Task.Nudge) (w' : Processes.World Shared (Task ε R M)) (task' : Task ε R M),
        nudges.length ≤ 6 ∧ (nudges.map Task.Nudge.ms).sum ≤ prefillWindDownGrace ∧
        Runs.run (prefills ε R P).step w (nudges.map (·.action i)) = some w' ∧
        w'.processes[i]? = some task' ∧ task'.outer = .ended := by
  refine ⟨fun task htask => ?_, fun i task hget hcancelled => ?_⟩
  · have hwarm := warm_of_run hrun task htask
    refine ⟨hwarm.placed.once, fun hasked => ⟨hwarm.placed.asked hasked, ?_⟩, fun hended hsent => ?_⟩
    · exact hwarm.timely.cancelled (hwarm.timely.stopped hasked)
    · exact (hwarm.placed.ended hended).resolve_left hsent
  · have hwarm := warm_of_run hrun task (List.mem_of_getElem? hget)
    obtain ⟨nudges, w', task', hlength, hsum, hend⟩ := ends_of_rank (P := P) 6 hget hwarm.placed
      hwarm.timely hcancelled (rank_le _ _)
    exact ⟨nudges, w', task', hlength, hsum.trans (wait_le hwarm.timely), hend⟩

/-! ## A turn, and an owner that is dropped -/

abbrev SampleAction :=
  Processes.Action Task.Act Env (Enter Unit (Option AssistantMessage) AssistantMessage)

abbrev SampleWorld :=
  Processes.World Shared (Task Unit (Option AssistantMessage) AssistantMessage)

/-- The sample after some steps. -/
def sampleRun (actions : List SampleAction) : Option SampleWorld :=
  Runs.run (prefills Unit (Option AssistantMessage) pathProtocol).step noPrefills actions

def sampleTokenizer : Tokenizer Unit where
  validatePrefixCache := .ok ()
  numSpecialTokensAdded := .ok 0
  tokenToId _ := .ok (some endTokenId)
  specialTokenIds := .ok [endTokenId]
  encode text := .ok (if text = endToken then [endTokenId] else [text.length, endTokenId])

/-- A request whose prefix is its last message. -/
def sampleCall : Enter Unit (Option AssistantMessage) AssistantMessage where
  owner := 0
  cacheIdentitySupported := true
  request := ⟨some true, none, none, none, some⟩
  preprocessing := ⟨fun message =>
    .ok (message.map fun m => (m.content.getD "").toList ++ endToken), sampleTokenizer⟩

/-- The items of a client stream. -/
def sampleItems (calls : List Call) : List Item :=
  calls.map fun call => match call with
    | .observe response => ⟨false, none, some response⟩
    | .reject => ⟨true, none, none⟩

/-- A client turn, up to where its closure is on a blocking thread. -/
def sampleTurn : List SampleAction :=
  .enter sampleCall ::
    ((sampleItems (fragmentedTurn textDelta)).map fun item => .own 0 (.stream (.item item))) ++
    [.own 0 (.stream .eof), .own 0 .poll, .own 0 .settle, .own 0 .poll, .own 0 .advance,
      .own 0 .advance, .own 0 .advance]

/-- The closure returns, the request goes out, and the owner is dropped while it is answered. -/
def sampleDispatch : List SampleAction :=
  List.replicate 5 (.own 0 .work) ++ List.replicate 4 (.own 0 .advance) ++ [.env (.cancel [0])]

/-- A closure that is still queued when its task has ended keeps its permit. -/
theorem prefill_admission_sample : ∃ w : SampleWorld,
    (w.processes.any fun task => task.outer = .ended ∧ task.closure.isRunning) = true ∧
    w.shared.free + (w.processes.map Task.held).sum = maxBlockingPrefills ∧
      w.processes.countP (·.closure.isRunning) ≤ maxBlockingPrefills := by
  have hended : (sampleRun (sampleTurn ++ [.env (.cancel [0]), .own 0 .settle, .own 0 .poll])).any
      (fun w => w.processes.any fun task => task.outer = .ended ∧ task.closure.isRunning) = true := by
    decide +kernel
  cases hrun : sampleRun (sampleTurn ++ [.env (.cancel [0]), .own 0 .settle, .own 0 .poll]) with
  | none =>
    rw [hrun] at hended
    cases hended
  | some w =>
    rw [hrun] at hended
    exact ⟨w, hended, prefill_admission hrun⟩

/-- The run that ends with a request in the pipeline and a dropped owner. -/
theorem sampleDispatch_run : ∃ (w : SampleWorld)
    (task : Task Unit (Option AssistantMessage) AssistantMessage),
    sampleRun (sampleTurn ++ sampleDispatch) = some w ∧ w.processes[0]? = some task ∧
      task.dispatched = [[15, endTokenId]] ∧ task.owner ∈ w.shared.cancelled := by
  have hsent : (sampleRun (sampleTurn ++ sampleDispatch)).any (fun w =>
      w.processes[0]?.any fun task =>
        task.dispatched = [[15, endTokenId]] ∧ task.owner ∈ w.shared.cancelled) = true := by
    decide +kernel
  obtain ⟨w, hw, hfirst⟩ := (Option.any_eq_true _ _).1 hsent
  obtain ⟨task, htask, hboth⟩ := (Option.any_eq_true _ _).1 hfirst
  exact ⟨w, task, hw, htask, of_decide_eq_true hboth⟩

theorem prefill_dispatch_sample :
    ∃ task : Task Unit (Option AssistantMessage) AssistantMessage,
      task.dispatched = [[15, endTokenId]] ∧ Dispatch pathProtocol task := by
  obtain ⟨w, task, hrun, hget, hsent, -⟩ := sampleDispatch_run
  exact ⟨task, hsent, (prefill_dispatch hrun).1 task (List.mem_of_getElem? hget)⟩

theorem prefill_ends_sample : ∃ (w : SampleWorld) (nudges : List Task.Nudge) (w' : SampleWorld)
    (task' : Task Unit (Option AssistantMessage) AssistantMessage),
    sampleRun (sampleTurn ++ sampleDispatch) = some w ∧ nudges.length ≤ 6 ∧
      Runs.run (prefills Unit (Option AssistantMessage) pathProtocol).step w
        (nudges.map (·.action 0)) = some w' ∧
      w'.processes[0]? = some task' ∧ task'.outer = .ended := by
  obtain ⟨w, task, hrun, hget, -, hcancelled⟩ := sampleDispatch_run
  obtain ⟨nudges, w', task', hlength, -, hend⟩ := (prefill_ends hrun).2 0 task hget hcancelled
  exact ⟨w, nudges, w', task', hrun, hlength, hend⟩

end ReedCode.SpeculativePrefill
