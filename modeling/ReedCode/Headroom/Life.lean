import ReedCode.Headroom.Simulation

/-!
# The life of a workflow

One workflow as the rest of the simulation sees it: at most one thing of it is outstanding, and
its status is decided once.

* `Life`, `Lived` — what there is of a workflow, and the steps it goes through.
* `Recorded` — the rows of its turns against what is outstanding; `Judged` — its status against
  its deadline and its news.
* `Lived.recorded`, `Lived.judged` — every step keeps both.
-/

set_option autoImplicit false

universe u

namespace ReedCode.Headroom

/-! ## States -/

/-- What is outstanding of a workflow. -/
inductive Token (T : Type u)
  | arriving
  | waiting (index : Nat)
  | queued (index : Nat) (ready : T)
  | serving (index : Nat) (ready finish : T)

inductive News
  | ready (turn : Nat)
  | finished (turn : Nat)
  | cancelled

namespace Token

variable {T : Type u}

def index : Token T → Nat
  | arriving => 0
  | waiting index | queued index _ | serving index _ _ => index

def ready? : Token T → Option T
  | arriving | waiting _ => none
  | queued _ ready | serving _ ready _ => some ready

def finish? : Token T → Option T
  | serving _ _ finish => some finish
  | _ => none

end Token

structure Life (T : Type u) [Zero T] where
  state : WorkflowState T
  tokens : List (Token T)
  deadlines : List T
  news : List (T × News)

variable {T : Type u} [LinearOrder T] [Zero T]

/-- The row a finished request leaves. -/
def WorkflowState.record (state : WorkflowState T) (now : T) (index : Nat) (ready : T)
    (cached : Nat) : WorkflowState T :=
  { state with turns := state.turns ++ [⟨index, ready, now, cached⟩] }

/-! ## Steps -/

/-- A request finishes. -/
def Life.finish (life : Life T) (now : T) (index : Nat) (ready : T) (cached : Nat)
    (tokens : List (Token T)) : Life T :=
  { life with
    state := life.state.record now index ready cached
    tokens := tokens
    news := life.news ++ [(now, .finished index)] }

/-- The steps of a life at the time `now`. -/
inductive Lived [Sub T] (now : T) : Life T → Life T → Prop
  | forgotten {life : Life T} {token : Token T} (hdead : life.state.status ≠ .running)
      (htokens : life.tokens = [token]) : Lived now life { life with tokens := [] }
  | arrived {life : Life T} (hrunning : life.state.status = .running)
      (htokens : life.tokens = [.arriving]) : Lived now life { life with tokens := [.waiting 0] }
  | ready {life : Life T} {index : Nat} (hrunning : life.state.status = .running)
      (htokens : life.tokens = [.waiting index]) : Lived now life { life with
        tokens := [.queued index now]
        news := life.news ++ [(now, .ready index)] }
  | started {life : Life T} {index : Nat} {ready finish : T}
      (hrunning : life.state.status = .running) (htokens : life.tokens = [.queued index ready]) :
      Lived now life { life with tokens := [.serving index ready finish] }
  | finishedDead {life : Life T} {index : Nat} {ready : T} {cached : Nat}
      (hdead : life.state.status ≠ .running) (htokens : life.tokens = [.serving index ready now]) :
      Lived now life (life.finish now index ready cached [])
  | finishedLast {life : Life T} {index : Nat} {ready : T} {cached : Nat}
      (hrunning : life.state.status = .running) (htokens : life.tokens = [.serving index ready now])
      (hlast : index + 1 = life.state.workflow.turns.length)
      (htimely : ∀ deadline ∈ life.deadlines, now ≤ deadline) :
      Lived now life { life.finish now index ready cached [] with
        state := { life.state.record now index ready cached with
          status := .completed, completionMs := some (now - life.state.workflow.arrivalMs) } }
  | finishedNext {life : Life T} {index : Nat} {ready : T} {cached : Nat}
      (hrunning : life.state.status = .running) (htokens : life.tokens = [.serving index ready now])
      (hmore : index + 1 ≠ life.state.workflow.turns.length) :
      Lived now life (life.finish now index ready cached [.waiting (index + 1)])
  | cancelled {life : Life T} (hrunning : life.state.status = .running) :
      Lived now life { life with
        state := { life.state with status := .cancelled }
        news := life.news ++ [(now, .cancelled)] }
  | timeout {life : Life T} {deadlines : List T} (hrunning : life.state.status = .running)
      (hdeadlines : life.deadlines = now :: deadlines)
      (hlate : ∀ token ∈ life.tokens, ∀ finish ∈ token.finish?, now < finish) :
      Lived now life { life with
        state := { life.state with status := .timeout }, deadlines := deadlines }
  | deadlineDead {life : Life T} {deadlines : List T} (hdead : life.state.status ≠ .running)
      (hdeadlines : life.deadlines = now :: deadlines) :
      Lived now life { life with deadlines := deadlines }

theorem Lived.of_eq [Sub T] {now : T} {life life₁ life₂ : Life T} (h : Lived now life life₁)
    (heq : life₂ = life₁) : Lived now life life₂ := heq ▸ h

/-! ## Turns -/

/-- What a token says is outstanding follows the turns that are recorded. -/
structure Token.Fits (token : Token T) (now : T) (turns : List (TurnRow T)) (news : List (T × News)) :
    Prop where
  index : token.index = turns.length
  fresh : ∀ time turn, (time, .ready turn) ∈ news →
    turn < token.index + if token.ready?.isSome then 1 else 0
  ready : ∀ time ∈ token.ready?, time ≤ now ∧ ∀ row ∈ turns, row.completedMs ≤ time

structure Recorded (now : T) (life : Life T) : Prop where
  rows : life.state.turns.map (·.turn) = List.range life.state.turns.length
  times : ∀ row ∈ life.state.turns, row.readyMs ≤ row.completedMs ∧ row.completedMs ≤ now
  chained : life.state.turns.Pairwise fun a b => a.completedMs ≤ b.readyMs
  token : life.tokens = [] ∨ ∃ token, life.tokens = [token] ∧
    token.Fits now life.state.turns life.news

theorem Recorded.fits {now : T} {life : Life T} (h : Recorded now life) {token : Token T}
    (htokens : life.tokens = [token]) : token.Fits now life.state.turns life.news := by
  rcases h.token with hnil | ⟨other, hone, hfits⟩
  · cases htokens.symm.trans hnil
  · cases htokens.symm.trans hone
    exact hfits

/-- Time goes on. -/
theorem Recorded.mono {now later : T} {life : Life T} (h : Recorded now life) (hle : now ≤ later) :
    Recorded later life := by
  refine ⟨h.rows, fun row hrow => ⟨(h.times row hrow).1, (h.times row hrow).2.trans hle⟩, h.chained, ?_⟩
  rcases h.token with hnil | ⟨token, hone, hindex, hfresh, hready⟩
  · exact Or.inl hnil
  · exact Or.inr ⟨token, hone, hindex, hfresh, fun time htime =>
      ⟨(hready time htime).1.trans hle, (hready time htime).2⟩⟩

/-- A finished request leaves the next row. -/
theorem Recorded.finish {now : T} {life : Life T} (h : Recorded now life) {index : Nat} {ready : T}
    (htokens : life.tokens = [.serving index ready now]) (cached : Nat) :
    Recorded now (life.finish now index ready cached []) := by
  obtain ⟨hindex, -, hready⟩ := h.fits htokens
  obtain ⟨hle, hafter⟩ := hready ready rfl
  have hturns : (life.finish now index ready cached []).state.turns =
      life.state.turns ++ [⟨index, ready, now, cached⟩] := rfl
  refine ⟨?_, ?_, ?_, Or.inl rfl⟩
  · rw [hturns, List.map_append, h.rows, List.length_append, List.length_singleton, List.range_succ]
    exact congrArg (fun turn => _ ++ [turn]) hindex
  · rw [hturns]
    intro row hrow
    rcases List.mem_append.1 hrow with hrow | hrow
    · exact h.times row hrow
    · rw [List.mem_singleton.1 hrow]
      exact ⟨hle, le_refl now⟩
  · rw [hturns, List.pairwise_append]
    refine ⟨h.chained, List.pairwise_singleton _ _, fun a ha b hb => ?_⟩
    rw [List.mem_singleton.1 hb]
    exact hafter a ha

/-- What is outstanding changes, and news of it may come. -/
theorem Recorded.setToken {now : T} {life : Life T} (h : Recorded now life) {token : Token T}
    {news : List (T × News)} (hfits : token.Fits now life.state.turns news) :
    Recorded now { life with tokens := [token], news := news } :=
  ⟨h.rows, h.times, h.chained, Or.inr ⟨token, rfl, hfits⟩⟩

omit [Zero T] in
/-- News that is not of a turn that is ready. -/
theorem Token.Fits.addNews {token : Token T} {now : T} {turns : List (TurnRow T)}
    {news : List (T × News)} (h : token.Fits now turns news) {entry : T × News}
    (hentry : ∀ turn, entry.2 ≠ .ready turn) : token.Fits now turns (news ++ [entry]) := by
  refine ⟨h.index, fun time turn hmem => ?_, h.ready⟩
  rcases List.mem_append.1 hmem with hmem | hmem
  · exact h.fresh time turn hmem
  · exact absurd (congrArg Prod.snd (List.mem_singleton.1 hmem)).symm (hentry turn)

variable [Sub T]

/-- **Turns are recorded in order.** -/
theorem Lived.recorded {now : T} {life life' : Life T} (hlived : Lived now life life')
    (h : Recorded now life) : Recorded now life' := by
  cases hlived with
  | forgotten _ _ => exact ⟨h.rows, h.times, h.chained, Or.inl rfl⟩
  | arrived _ htokens =>
    obtain ⟨hindex, hfresh, -⟩ := h.fits htokens
    exact h.setToken ⟨hindex, hfresh, fun _ htime => by cases htime⟩
  | @ready index _ htokens =>
    obtain ⟨hindex, hfresh, -⟩ := h.fits htokens
    refine h.setToken ⟨hindex, fun time turn hmem => ?_, fun time htime => ?_⟩
    · rcases List.mem_append.1 hmem with hmem | hmem
      · exact Nat.lt_succ_of_lt (hfresh time turn hmem)
      · cases List.mem_singleton.1 hmem
        exact Nat.lt_succ_self index
    · cases htime
      exact ⟨le_refl now, fun row hrow => (h.times row hrow).2⟩
  | started _ htokens =>
    obtain ⟨hindex, hfresh, hready⟩ := h.fits htokens
    exact h.setToken ⟨hindex, hfresh, hready⟩
  | finishedDead _ htokens => exact h.finish htokens _
  | @finishedLast _ _ cached _ htokens _ _ =>
    have hfinish := h.finish htokens cached
    exact ⟨hfinish.rows, hfinish.times, hfinish.chained, Or.inl rfl⟩
  | @finishedNext index ready cached _ htokens _ =>
    obtain ⟨hindex, hfresh, -⟩ := h.fits htokens
    have hfits : (Token.waiting (index + 1) : Token T).Fits now
        (life.state.record now index ready cached).turns (life.news ++ [(now, .finished index)]) := by
      refine ⟨?_, fun time turn hmem => ?_, fun _ htime => by cases htime⟩
      · show index + 1 = (life.state.turns ++ _).length
        rw [List.length_append, List.length_singleton]
        exact congrArg (· + 1) hindex
      · rcases List.mem_append.1 hmem with hmem | hmem
        · exact hfresh time turn hmem
        · cases List.mem_singleton.1 hmem
    exact (h.finish htokens cached).setToken hfits
  | cancelled _ =>
    refine ⟨h.rows, h.times, h.chained, ?_⟩
    rcases h.token with hnil | ⟨token, hone, hfits⟩
    · exact Or.inl hnil
    · exact Or.inr ⟨token, hone, hfits.addNews fun _ heq => by cases heq⟩
  | timeout _ _ _ => exact ⟨h.rows, h.times, h.chained, h.token⟩
  | deadlineDead _ _ => exact ⟨h.rows, h.times, h.chained, h.token⟩

/-! ## Outcomes -/

/-- The last of `turns` turns was finished by the deadline, and no cancellation came before. -/
def FinishedInTime (due : T) (turns : Nat) (news : List (T × News)) : Prop :=
  ∃ before time last after, news = before ++ (time, .finished last) :: after ∧ last + 1 = turns ∧
    time ≤ due ∧ ∀ entry ∈ before, entry.2 ≠ .cancelled

structure Judged (due : T) (life : Life T) : Prop where
  running : life.state.status = .running → due ∈ life.deadlines ∧ life.tokens ≠ [] ∧
    ∀ entry ∈ life.news, entry.2 ≠ .cancelled
  completed : life.state.status = .completed → life.tokens = []
  cancelled : life.state.status = .cancelled → ∃ entry ∈ life.news, entry.2 = .cancelled
  timeout : life.state.status = .timeout → ∀ token ∈ life.tokens, ∀ finish ∈ token.finish?,
    due < finish
  judged : life.state.status = .completed ↔
    FinishedInTime due life.state.workflow.turns.length life.news
  deadlines : ∀ deadline ∈ life.deadlines, deadline = due
  completion : ∀ time ∈ life.state.completionMs, ∃ finish, finish ≤ due ∧
    time = finish - life.state.workflow.arrivalMs

omit [Zero T] [Sub T] in
theorem FinishedInTime.append {due : T} {turns : Nat} {news : List (T × News)}
    (h : FinishedInTime due turns news) (later : List (T × News)) :
    FinishedInTime due turns (news ++ later) := by
  obtain ⟨before, time, last, after, rfl, hlast, htime, hbefore⟩ := h
  exact ⟨before, time, last, after ++ later, by rw [List.append_assoc, List.cons_append], hlast,
    htime, hbefore⟩

omit [Zero T] [Sub T] in
/-- The last entry decides, if the ones before did not. -/
theorem finishedInTime_append_singleton {due : T} {turns : Nat} {news : List (T × News)}
    {entry : T × News} (h : FinishedInTime due turns (news ++ [entry])) :
    FinishedInTime due turns news ∨ ∃ last, entry.2 = .finished last ∧ last + 1 = turns ∧
      entry.1 ≤ due ∧ ∀ e ∈ news, e.2 ≠ .cancelled := by
  obtain ⟨before, time, last, after, heq, hlast, htime, hbefore⟩ := h
  rcases List.eq_nil_or_concat' after with rfl | ⟨front, final, rfl⟩
  · obtain ⟨rfl, hentry⟩ := List.append_inj' heq rfl
    cases hentry
    exact Or.inr ⟨last, rfl, hlast, htime, hbefore⟩
  · rw [← List.cons_append, ← List.append_assoc] at heq
    obtain ⟨rfl, -⟩ := List.append_inj' heq rfl
    exact Or.inl ⟨before, time, last, front, rfl, hlast, htime, hbefore⟩

omit [Zero T] [Sub T] in
/-- News that does not decide. -/
theorem finishedInTime_append_iff {due : T} {turns : Nat} {news : List (T × News)}
    {entry : T × News} (hentry : ∀ last, entry.2 = .finished last → last + 1 ≠ turns) :
    FinishedInTime due turns (news ++ [entry]) ↔ FinishedInTime due turns news := by
  constructor
  · intro h
    rcases finishedInTime_append_singleton h with h | ⟨last, hfinished, hlast, -⟩
    · exact h
    · exact absurd hlast (hentry last hfinished)
  · exact fun h => h.append _

namespace Judged

variable {due now : T} {life : Life T}

/-- The steps that neither end a life nor bring news that decides. -/
theorem goOn (h : Judged due life) {tokens : List (Token T)} {news : List (T × News)}
    (hrunning : life.state.status = .running) (htokens : tokens ≠ [])
    (hnews : news = life.news ∨ ∃ entry, news = life.news ++ [entry] ∧ entry.2 ≠ .cancelled ∧
      ∀ last, entry.2 = .finished last → last + 1 ≠ life.state.workflow.turns.length)
    (state : WorkflowState T) (hstatus : state.status = life.state.status)
    (hworkflow : state.workflow = life.state.workflow)
    (hcompletion : state.completionMs = life.state.completionMs) :
    Judged due { life with state := state, tokens := tokens, news := news } := by
  have hsame : FinishedInTime due life.state.workflow.turns.length news ↔
      FinishedInTime due life.state.workflow.turns.length life.news := by
    rcases hnews with rfl | ⟨entry, rfl, -, hentry⟩
    · rfl
    · exact finishedInTime_append_iff hentry
  have hstay : ∀ status, status ≠ Status.running → state.status = status → False :=
    fun status hne heq => hne (heq.symm.trans (hstatus.trans hrunning))
  refine ⟨fun _ => ?_, fun heq => (hstay _ (by decide) heq).elim,
    fun heq => (hstay _ (by decide) heq).elim, fun heq => (hstay _ (by decide) heq).elim, ?_,
    h.deadlines, ?_⟩
  · obtain ⟨hdue, -, hcalm⟩ := h.running hrunning
    refine ⟨hdue, htokens, ?_⟩
    rcases hnews with rfl | ⟨entry, rfl, hentry, -⟩
    · exact hcalm
    · intro e he
      rcases List.mem_append.1 he with he | he
      · exact hcalm e he
      · rw [List.mem_singleton.1 he]
        exact hentry
  · show state.status = .completed ↔ FinishedInTime due state.workflow.turns.length news
    rw [hstatus, hworkflow, hsame]
    exact h.judged
  · show ∀ time ∈ state.completionMs, ∃ finish, _ ∧ time = finish - state.workflow.arrivalMs
    rw [hcompletion, hworkflow]
    exact h.completion

/-- The request of a dead workflow does not finish it in time. -/
theorem finishDead (h : Judged due life) {index : Nat} {ready : T}
    (hdead : life.state.status ≠ .running) (htokens : life.tokens = [.serving index ready now])
    (cached : Nat) : Judged due (life.finish now index ready cached []) := by
  refine ⟨fun heq => absurd heq hdead, fun _ => rfl, fun heq => ?_, fun _ token htoken => ?_,
    ⟨fun heq => (h.judged.1 heq).append _, fun hfinished => ?_⟩, h.deadlines, h.completion⟩
  · obtain ⟨entry, hentry, hcancelled⟩ := h.cancelled heq
    exact ⟨entry, List.mem_append_left _ hentry, hcancelled⟩
  · cases htoken
  · rcases finishedInTime_append_singleton hfinished with hfinished | ⟨last, -, -, htime, hcalm⟩
    · exact h.judged.2 hfinished
    · -- the workflow died before, and nothing it can have died of leaves this request in time
      show life.state.status = .completed
      cases hstatus : life.state.status with
      | running => exact absurd hstatus hdead
      | completed => rfl
      | cancelled =>
        obtain ⟨entry, hentry, hcancelled⟩ := h.cancelled hstatus
        exact absurd hcancelled (hcalm entry hentry)
      | timeout =>
        have hlate := h.timeout hstatus _ (htokens ▸ List.mem_singleton_self _) now rfl
        exact absurd htime (not_le.2 hlate)

theorem finishLast (h : Judged due life) {index : Nat} {ready : T}
    (hrunning : life.state.status = .running)
    (hlast : index + 1 = life.state.workflow.turns.length)
    (htimely : ∀ deadline ∈ life.deadlines, now ≤ deadline) (cached : Nat) :
    Judged due { life.finish now index ready cached [] with
      state := { life.state.record now index ready cached with
        status := .completed, completionMs := some (now - life.state.workflow.arrivalMs) } } := by
  obtain ⟨hdue, -, hcalm⟩ := h.running hrunning
  have htime := htimely due hdue
  refine ⟨fun heq => (by cases heq), fun _ => rfl, fun heq => (by cases heq),
    fun heq => (by cases heq), ⟨fun _ => ?_, fun _ => rfl⟩, h.deadlines, fun time heq => ?_⟩
  · exact ⟨life.news, now, index, [], rfl, hlast, htime, hcalm⟩
  · cases heq
    exact ⟨now, htime, rfl⟩

end Judged

/-- **The status of a workflow is decided once**, by what comes first: its last request, a
cancellation or its deadline. -/
theorem Lived.judged {due now : T} {life life' : Life T} (hlived : Lived now life life')
    (h : Judged due life) : Judged due life' := by
  cases hlived with
  | forgotten hdead _ =>
    exact ⟨fun heq => absurd heq hdead, fun _ => rfl, h.cancelled,
      fun _ token htoken => (by cases htoken), h.judged, h.deadlines, h.completion⟩
  | arrived hrunning _ => exact h.goOn hrunning (by simp) (Or.inl rfl) _ rfl rfl rfl
  | ready hrunning _ =>
    refine h.goOn hrunning (by simp) (Or.inr ⟨_, rfl, ?_, ?_⟩) _ rfl rfl rfl
    · exact fun heq => by cases heq
    · exact fun _ heq => by cases heq
  | started hrunning _ => exact h.goOn hrunning (by simp) (Or.inl rfl) _ rfl rfl rfl
  | finishedDead hdead htokens => exact h.finishDead hdead htokens _
  | finishedLast hrunning _ hlast htimely => exact h.finishLast hrunning hlast htimely _
  | finishedNext hrunning _ hmore =>
    refine h.goOn hrunning (by simp) (Or.inr ⟨_, rfl, ?_, ?_⟩) _ rfl rfl rfl
    · exact fun heq => by cases heq
    · intro last heq
      cases heq
      exact hmore
  | cancelled hrunning =>
    have hopen : ¬ FinishedInTime due life.state.workflow.turns.length life.news := fun hfinished => by
      have heq := h.judged.2 hfinished
      rw [hrunning] at heq
      cases heq
    refine ⟨fun heq => (by cases heq), fun heq => (by cases heq), fun _ => ?_,
      fun heq => (by cases heq), ⟨fun heq => (by cases heq), fun hfinished => ?_⟩, h.deadlines,
      h.completion⟩
    · exact ⟨_, List.mem_append_right _ (List.mem_singleton_self _), rfl⟩
    · refine absurd ((finishedInTime_append_iff fun _ heq => ?_).1 hfinished) hopen
      cases heq
  | timeout hrunning hdeadlines hlate =>
    have hnow := h.deadlines now (hdeadlines ▸ List.mem_cons_self)
    refine ⟨fun heq => (by cases heq), fun heq => (by cases heq), fun heq => (by cases heq),
      fun _ => ?_, ⟨fun heq => (by cases heq), fun hfinished => ?_⟩, fun deadline hmem => ?_,
      h.completion⟩
    · rw [← hnow]
      exact hlate
    · have heq := h.judged.2 hfinished
      rw [hrunning] at heq
      cases heq
    · exact h.deadlines deadline (hdeadlines ▸ List.mem_cons_of_mem _ hmem)
  | deadlineDead hdead hdeadlines =>
    exact ⟨fun heq => absurd heq hdead, h.completed, h.cancelled, h.timeout, h.judged,
      fun deadline hmem => h.deadlines deadline (hdeadlines ▸ List.mem_cons_of_mem _ hmem),
      h.completion⟩

/-- The life of a workflow in front of its arrival. -/
def Life.born (workflow : Workflow T) (due : T) : Life T where
  state := ⟨workflow, .running, [], none⟩
  tokens := [.arriving]
  deadlines := [due]
  news := []

omit [Sub T] in
theorem Life.born_recorded (now due : T) (workflow : Workflow T) :
    Recorded now (.born workflow due) := by
  refine ⟨rfl, fun row hrow => (by cases hrow), .nil, Or.inr ⟨.arriving, rfl, rfl, ?_, ?_⟩⟩
  · exact fun time turn hmem => by cases hmem
  · exact fun time htime => by cases htime

theorem Life.born_judged (due : T) (workflow : Workflow T) : Judged due (.born workflow due) := by
  refine ⟨fun _ => ⟨List.mem_singleton_self due, List.cons_ne_nil _ _, fun e he => (by cases he)⟩,
    fun heq => (by cases heq), fun heq => (by cases heq), fun heq => (by cases heq),
    ⟨fun heq => (by cases heq), ?_⟩, fun deadline => List.mem_singleton.1,
    fun time htime => (by cases htime)⟩
  rintro ⟨before, time, last, after, heq, -⟩
  exact absurd heq.symm (List.append_ne_nil_of_right_ne_nil _ (List.cons_ne_nil _ _))

/-- A status that was decided stays. -/
theorem Lived.settled {now : T} {life life' : Life T} (hlived : Lived now life life')
    (hdead : life.state.status ≠ .running) : life'.state.status = life.state.status := by
  cases hlived with
  | forgotten _ _ => rfl
  | finishedDead _ _ => rfl
  | deadlineDead _ _ => rfl
  | arrived hrunning _ => exact absurd hrunning hdead
  | ready hrunning _ => exact absurd hrunning hdead
  | started hrunning _ => exact absurd hrunning hdead
  | finishedLast hrunning _ _ _ => exact absurd hrunning hdead
  | finishedNext hrunning _ _ => exact absurd hrunning hdead
  | cancelled hrunning => exact absurd hrunning hdead
  | timeout hrunning _ _ => exact absurd hrunning hdead

end ReedCode.Headroom
