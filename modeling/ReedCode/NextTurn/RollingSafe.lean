import ReedCode.NextTurn.Rolling

/-!
# Rolling preparation never competes with the foreground

* `Safe` — the invariant: an unfinished task is the active one, one that waits in front of the
  transport call after a later dispatch has a cancellation pending, and the row of a task whose
  callbacks have run is over.
* `safe_update` — the rule for a step that changes one task and its row.
* `step_safe`, `rolling_safe` — every step keeps the invariant, hence every run.
-/

set_option autoImplicit false

namespace ReedCode.NextTurn.Rolling

/-! ## What is claimed -/

/-- A terminal status and an end time. -/
def Row.over (row : Row) : Bool := row.status.terminal && row.ended.isSome

/-- The task is done and its callbacks have run, or have nothing to do. -/
def Job.settled (job : Job) : Bool :=
  match job.pc with
  | .finished cancelled => !cancelled || job.callbackRun
  | _ => false

/-- There was a dispatch after the attempt was created; the latest event is in front. -/
def DispatchedSince (row : Nat) (log : List Event) : Prop :=
  ∃ later earlier, log = later ++ .dispatchIntent :: earlier ∧ .created row ∈ earlier

/-- No transport call has begun after a dispatch that came later than its attempt. -/
def NoLate : List Event → Prop
  | [] => True
  | .transport row :: older => ¬ DispatchedSince row older ∧ NoLate older
  | _ :: older => NoLate older

/-- The task stands in front of its transport call. -/
def Job.waiting (job : Job) : Bool := job.pc == .fresh || job.pc == .predicting

structure Safe (s : State) : Prop where
  rowBound : ∀ {j : Nat} {job : Job}, s.jobs[j]? = some job → job.row < s.attempts.length
  rowInj : ∀ {j k : Nat} {job job' : Job}, s.jobs[j]? = some job → s.jobs[k]? = some job' →
    job.row = job'.row → j = k
  running : ∀ {j : Nat} {job : Job}, s.jobs[j]? = some job → job.done = false → s.active = some j
  settled : ∀ {j : Nat} {job : Job}, s.jobs[j]? = some job → job.settled = true →
    ∃ row : Row, s.attempts[job.row]? = some row ∧ row.over = true
  callback : ∀ {j : Nat} {job : Job}, s.jobs[j]? = some job → job.callbackRun = true →
    job.done = true
  created : ∀ {i : Nat}, .created i ∈ s.log → i < s.attempts.length
  dispatched : ∀ {j : Nat} {job : Job}, s.jobs[j]? = some job → job.waiting = true →
    DispatchedSince job.row s.log → job.cancelPending = true
  noLate : NoLate s.log

/-! ## Dispatches -/

theorem DispatchedSince.cons {row : Nat} {event : Event} {log : List Event}
    (h : DispatchedSince row (event :: log)) (hevent : event ≠ .dispatchIntent) :
    DispatchedSince row log := by
  obtain ⟨later, earlier, hlog, hmem⟩ := h
  cases later with
  | nil => exact absurd (List.cons.inj hlog).1 hevent
  | cons first later => exact ⟨later, earlier, (List.cons.inj hlog).2, hmem⟩

theorem DispatchedSince.created {row : Nat} {log : List Event} (h : DispatchedSince row log) :
    .created row ∈ log := by
  obtain ⟨later, earlier, rfl, hmem⟩ := h
  exact List.mem_append_right _ (List.mem_cons_of_mem _ hmem)

/-! ## Cancellation -/

@[simp] theorem Job.cancel_row (job : Job) : job.cancel.row = job.row := by
  unfold Job.cancel
  split <;> rfl

@[simp] theorem Job.cancel_pc (job : Job) : job.cancel.pc = job.pc := by
  unfold Job.cancel
  split <;> rfl

@[simp] theorem Job.cancel_callbackRun (job : Job) : job.cancel.callbackRun = job.callbackRun := by
  unfold Job.cancel
  split <;> rfl

theorem Job.cancel_done (job : Job) : job.cancel.done = job.done := by
  simp [Job.done]

theorem Job.cancel_settled (job : Job) : job.cancel.settled = job.settled := by
  simp [Job.settled]

theorem Job.cancel_waiting (job : Job) : job.cancel.waiting = job.waiting := by
  simp [Job.waiting]

theorem Job.waiting_not_done {job : Job} (h : job.waiting = true) : job.done = false := by
  simp only [Job.waiting, Bool.or_eq_true, beq_iff_eq] at h
  rcases h with h | h <;> simp [Job.done, h]

/-- A task that is not done gets its cancellation. -/
theorem Job.cancel_pending {job : Job} (h : job.done = false) : job.cancel.cancelPending = true := by
  simp [Job.cancel, h]

theorem Job.cancel_pending_of {job : Job} (h : job.cancelPending = true) :
    job.cancel.cancelPending = true := by
  unfold Job.cancel
  split
  · exact h
  · rfl

/-! ## Steps that change tasks -/

/-- An update of a task that keeps what the invariant needs of it. -/
structure Keeps (job job' : Job) : Prop where
  row : job'.row = job.row
  done : job'.done = false → job.done = false
  waiting : job'.waiting = true → job.waiting = true
  pending : job'.waiting = true → job.cancelPending = true → job'.cancelPending = true
  callback : (job.callbackRun = true → job.done = true) → job'.callbackRun = true →
    job'.done = true

theorem Keeps.refl (job : Job) : Keeps job job := ⟨rfl, id, id, fun _ h => h, id⟩

theorem Keeps.cancel (job : Job) : Keeps job job.cancel where
  row := job.cancel_row
  done h := by rwa [Job.cancel_done] at h
  waiting h := by rwa [Job.cancel_waiting] at h
  pending _ h := Job.cancel_pending_of h
  callback h := by rwa [Job.cancel_callbackRun, Job.cancel_done]

/-- A task that is finished now. -/
theorem Keeps.finish (job : Job) (cancelled : Bool) :
    Keeps job { job with pc := .finished cancelled, cancelPending := false } where
  row := rfl
  done h := nomatch h
  waiting h := nomatch h
  pending h := nomatch h
  callback _ _ := rfl

/-- Tasks that keep what is needed, and rows that stay over. -/
theorem Safe.of_keeps {s s' : State} (h : Safe s)
    (hjobs : ∀ {j : Nat} {job' : Job}, s'.jobs[j]? = some job' → ∃ job, s.jobs[j]? = some job ∧
      Keeps job job' ∧ (job'.settled = true → ∃ row : Row, s'.attempts[job.row]? = some row ∧ row.over = true))
    (hrows : s'.attempts.length = s.attempts.length) (hactive : s'.active = s.active)
    (hlog : s'.log = s.log) : Safe s' where
  rowBound hj := by
    obtain ⟨job, hjob, hkeeps, -⟩ := hjobs hj
    rw [hkeeps.row, hrows]
    exact h.rowBound hjob
  rowInj hj hk heq := by
    obtain ⟨job, hjob, hkeeps, -⟩ := hjobs hj
    obtain ⟨job', hjob', hkeeps', -⟩ := hjobs hk
    rw [hkeeps.row, hkeeps'.row] at heq
    exact h.rowInj hjob hjob' heq
  running hj hdone := by
    obtain ⟨job, hjob, hkeeps, -⟩ := hjobs hj
    rw [hactive]
    exact h.running hjob (hkeeps.done hdone)
  settled hj hsettled := by
    obtain ⟨job, -, hkeeps, hover⟩ := hjobs hj
    rw [hkeeps.row]
    exact hover hsettled
  callback hj hrun := by
    obtain ⟨job, hjob, hkeeps, -⟩ := hjobs hj
    exact hkeeps.callback (h.callback hjob) hrun
  created hi := by
    rw [hlog] at hi
    rw [hrows]
    exact h.created hi
  dispatched hj hwaiting hdispatched := by
    obtain ⟨job, hjob, hkeeps, -⟩ := hjobs hj
    rw [hlog, hkeeps.row] at hdispatched
    exact hkeeps.pending hwaiting (h.dispatched hjob (hkeeps.waiting hwaiting) hdispatched)
  noLate := by
    rw [hlog]
    exact h.noLate

/-- A row that is not touched, or stays over. -/
theorem over_modify {rows : List Row} {i k : Nat} {f : Row → Row}
    (hf : i = k → ∀ row : Row, row.over = true → (f row).over = true)
    (h : ∃ row, rows[k]? = some row ∧ row.over = true) :
    ∃ row, (rows.modify i f)[k]? = some row ∧ row.over = true := by
  obtain ⟨row, hrow, hover⟩ := h
  rw [List.getElem?_modify, hrow]
  by_cases hik : i = k
  · exact ⟨f row, by simp [hik], hf hik row hover⟩
  · exact ⟨row, by simp [hik], hover⟩

/-- **The rule for a step of one task**: it keeps what is needed of the task, and where the task is
settled afterwards its row is over. -/
theorem safe_update {s : State} (h : Safe s) {j : Nat} {job : Job} (hj : s.jobs[j]? = some job)
    {f : Job → Job} {g : Row → Row} (hkeeps : Keeps job (f job))
    (hover : (f job).settled = true → ∀ row : Row,
      (job.settled = true → row.over = true) → (g row).over = true) :
    Safe ((s.setRow job.row g).setJob j f) := by
  refine h.of_keeps (fun {k} job' hk => ?_) (by simp [State.setJob, State.setRow]) rfl rfl
  simp only [State.setJob, State.setRow, List.getElem?_modify] at hk ⊢
  by_cases hjk : j = k
  · subst hjk
    rw [hj] at hk
    simp only [if_true, Option.map_eq_map, Option.map_some, Option.some.injEq] at hk
    subst hk
    refine ⟨job, hj, hkeeps, fun hsettled => ?_⟩
    obtain ⟨row, hrow⟩ : ∃ row, s.attempts[job.row]? = some row :=
      ⟨_, List.getElem?_eq_getElem (h.rowBound hj)⟩
    refine ⟨g row, by simp [hrow], hover hsettled row fun hbefore => ?_⟩
    obtain ⟨row', hrow', hover'⟩ := h.settled hj hbefore
    rw [hrow] at hrow'
    cases hrow'
    exact hover'
  · simp only [if_neg hjk, Option.map_eq_map, Option.map_id_fun', id_eq] at hk
    refine ⟨job', hk, .refl job', fun hsettled => ?_⟩
    obtain ⟨row, hrow, hrowOver⟩ := h.settled hk hsettled
    have hne : job.row ≠ job'.row := fun heq => hjk (h.rowInj hj hk heq)
    exact ⟨row, by simp [hne, hrow], hrowOver⟩

/-- A step that changes rows without touching status and end. -/
theorem safe_setRow {s : State} (h : Safe s) (i : Nat) {g : Row → Row}
    (hg : ∀ row, (g row).over = row.over) : Safe (s.setRow i g) := by
  refine h.of_keeps (fun {k} job' hk => ⟨job', hk, .refl job', fun hsettled => ?_⟩)
    (by simp [State.setRow]) rfl rfl
  exact over_modify (fun _ row hrow => (hg row).trans hrow) (h.settled hk hsettled)

/-- A step that changes one task alone. -/
theorem safe_setJob {s : State} (h : Safe s) {j : Nat} {job : Job} (hj : s.jobs[j]? = some job)
    {f : Job → Job} (hkeeps : Keeps job (f job))
    (hover : (f job).settled = true → job.settled = true) : Safe (s.setJob j f) := by
  have hsafe := safe_update h hj (g := id) hkeeps fun hsettled row hrow => hrow (hover hsettled)
  rwa [State.setRow, List.modify_id] at hsafe

/-! ## The calls of the session -/

theorem safe_init : Safe .init where
  rowBound h := nomatch h
  rowInj h := nomatch h
  running h := nomatch h
  settled h := nomatch h
  callback h := nomatch h
  created h := nomatch h
  dispatched h := nomatch h
  noLate := trivial

theorem State.busy_of_running {s : State} {j : Nat} {job : Job} (hactive : s.active = some j)
    (hj : s.jobs[j]? = some job) (hdone : job.done = false) : s.busy = true := by
  simp [State.busy, hactive, hj, hdone]

/-- A dispatch is harmless once every waiting task has its cancellation. -/
theorem safe_dispatchIntent {s : State} (h : Safe s)
    (hpending : ∀ {j : Nat} {job : Job}, s.jobs[j]? = some job → job.waiting = true →
      job.cancelPending = true) : Safe { s with log := .dispatchIntent :: s.log } where
  rowBound := h.rowBound
  rowInj := h.rowInj
  running := h.running
  settled := h.settled
  callback := h.callback
  created hi := h.created ((List.mem_cons.1 hi).resolve_left Event.noConfusion)
  dispatched hj hwaiting _ := hpending hj hwaiting
  noLate := h.noLate

/-- A dispatch that cancels the active task: no other one is unfinished. -/
theorem safe_cancelActive {s : State} (h : Safe s) {j : Nat} {job : Job}
    (hactive : s.active = some j) (hj : s.jobs[j]? = some job) :
    Safe { s.setJob j Job.cancel with log := .dispatchIntent :: s.log } := by
  have hcancelled : Safe (s.setJob j Job.cancel) :=
    safe_setJob h hj (.cancel job) fun hsettled => by rwa [Job.cancel_settled] at hsettled
  refine safe_dispatchIntent hcancelled fun {k job'} hk hwaiting => ?_
  have hjk : j = k := by
    have hrunning := hcancelled.running hk (Job.waiting_not_done hwaiting)
    exact Option.some.inj (hactive.symm.trans hrunning)
  subst hjk
  simp only [State.setJob, List.getElem?_modify, hj, if_true, Option.map_eq_map,
    Option.map_some, Option.some.injEq] at hk
  subst hk
  rw [Job.cancel_waiting] at hwaiting
  exact Job.cancel_pending (Job.waiting_not_done hwaiting)

theorem State.busy_eq_true {s : State} (h : s.busy = true) :
    ∃ j job, s.active = some j ∧ s.jobs[j]? = some job := by
  unfold State.busy at h
  split at h
  · rename_i job hjob
    obtain ⟨j, hactive, hj⟩ := Option.bind_eq_some_iff.1 hjob
    exact ⟨j, job, hactive, hj⟩
  · cases h

theorem safe_beforeDispatch {s : State} (h : Safe s) (now : Nat) : Safe (s.beforeDispatch now) := by
  have hmarked := safe_setRow h (s.attempts.length - 1)
    (g := fun row => { row with nextDispatch := some now }) fun _ => rfl
  unfold State.beforeDispatch
  dsimp only
  split
  · rename_i hbusy
    obtain ⟨j, job, hactive, hj⟩ := State.busy_eq_true (s := s) hbusy
    obtain ⟨attempts, jobs, active, activeRow, log⟩ := s
    obtain rfl : active = some j := hactive
    cases activeRow with
    | none => exact safe_cancelActive hmarked rfl hj
    | some i =>
      have hrequested := safe_setRow hmarked i
        (g := fun row => { row with cancelRequested := some now }) fun _ => rfl
      exact safe_cancelActive hrequested rfl hj
  · rename_i hidle
    refine safe_dispatchIntent hmarked fun {j job} hj hwaiting => absurd ?_ hidle
    have hdone := Job.waiting_not_done hwaiting
    exact State.busy_of_running (h.running hj hdone) hj hdone

/-- A new row; its attempt is new to the log. -/
theorem safe_appendRow {s : State} (h : Safe s) (row : Row) : Safe (s.appendRow row) where
  rowBound hj := by
    have hbound := h.rowBound hj
    simp only [State.appendRow, List.length_append, List.length_singleton]
    omega
  rowInj := h.rowInj
  running := h.running
  settled hj hsettled := by
    obtain ⟨row', hrow, hover⟩ := h.settled hj hsettled
    exact ⟨row', (List.getElem?_append_left (h.rowBound hj)).trans hrow, hover⟩
  callback := h.callback
  created hi := by
    simp only [State.appendRow, List.length_append, List.length_singleton]
    rcases List.mem_cons.1 hi with heq | hi
    · cases heq
      omega
    · have hbound := h.created hi
      omega
  dispatched hj hwaiting hdispatched :=
    h.dispatched hj hwaiting (hdispatched.cons Event.noConfusion)
  noLate := h.noLate

theorem State.done_of_idle {s : State} (h : Safe s) (hidle : s.busy = false) {j : Nat} {job : Job}
    (hj : s.jobs[j]? = some job) : job.done = true := by
  by_contra hrunning
  have hdone : job.done = false := by simpa using hrunning
  have hbusy := State.busy_of_running (h.running hj hdone) hj hdone
  rw [hidle] at hbusy
  cases hbusy

/-- A look into the tasks after one more was created. -/
theorem getElem?_snoc {α : Type} {items : List α} {item found : α} {k : Nat}
    (h : (items ++ [item])[k]? = some found) :
    items[k]? = some found ∨ k = items.length ∧ found = item := by
  rcases Nat.lt_trichotomy k items.length with hk | hk | hk
  · exact .inl ((List.getElem?_append_left hk).symm.trans h)
  · subst hk
    rw [List.getElem?_concat_length] at h
    exact .inr ⟨rfl, (Option.some.inj h).symm⟩
  · rw [List.getElem?_eq_none (by simpa using Nat.succ_le_of_lt hk)] at h
    cases h

/-- A task is created only when no other one is unfinished. -/
theorem safe_createTask {s : State} (h : Safe s) (hidle : s.busy = false) (row : Row) :
    Safe (s.appendRow row).createTask := by
  have happended := safe_appendRow h row
  have hlast : (s.appendRow row).attempts.length - 1 = s.attempts.length := by
    simp [State.appendRow]
  have hdone {j : Nat} {job : Job} (hj : s.jobs[j]? = some job) : job.done = true :=
    State.done_of_idle h hidle hj
  refine ⟨fun hj => ?_, fun hj hk heq => ?_, fun hj hrunning => ?_, fun hj hsettled => ?_,
    fun hj hrun => ?_, happended.created, fun hj hwaiting hdispatched => ?_, happended.noLate⟩
  · rcases getElem?_snoc hj with hj | ⟨-, rfl⟩
    · exact happended.rowBound hj
    · simp [State.createTask, State.appendRow]
  · rcases getElem?_snoc hj with hj | ⟨rfl, rfl⟩ <;> rcases getElem?_snoc hk with hk | ⟨rfl, rfl⟩
    · exact h.rowInj hj hk heq
    · have hbound := h.rowBound hj
      rw [heq, hlast] at hbound
      exact absurd hbound (Nat.lt_irrefl _)
    · have hbound := h.rowBound hk
      rw [← heq, hlast] at hbound
      exact absurd hbound (Nat.lt_irrefl _)
    · rfl
  · rcases getElem?_snoc hj with hj | ⟨rfl, rfl⟩
    · rw [hdone hj] at hrunning
      cases hrunning
    · rfl
  · rcases getElem?_snoc hj with hj | ⟨-, rfl⟩
    · exact happended.settled hj hsettled
    · cases hsettled
  · rcases getElem?_snoc hj with hj | ⟨-, rfl⟩
    · exact h.callback hj hrun
    · cases hrun
  · rcases getElem?_snoc hj with hj | ⟨-, rfl⟩
    · exact happended.dispatched hj hwaiting hdispatched
    · -- the row of the new task was not in the log before
      rw [hlast] at hdispatched
      have hcreated := (hdispatched.cons Event.noConfusion).created
      exact absurd (h.created hcreated) (Nat.lt_irrefl _)

theorem safe_afterResponse {s : State} (h : Safe s) (enabled : Bool) (now : Nat)
    (requestId : String) (issue : Option String) :
    Safe (s.afterResponse enabled now requestId issue) := by
  unfold State.afterResponse
  dsimp only
  split
  · exact safe_appendRow h _
  · split
    · exact safe_appendRow h _
    · split
      · exact safe_appendRow h _
      · rename_i hidle
        exact safe_createTask h (by simpa using hidle) _

/-! ## Steps of a task -/

/-- The end of `_prepare` leaves its row over. -/
theorem safe_settle {s : State} (h : Safe s) {j : Nat} {job : Job} (hj : s.jobs[j]? = some job)
    (now : Nat) {status : Status} (hstatus : status.terminal = true) (errorType : Option String) :
    Safe (s.settle j job now status errorType) :=
  safe_update h hj (.finish job false) fun _ row _ => by simp [Row.over, hstatus]

theorem safe_start {s : State} (h : Safe s) {j : Nat} {job : Job} (hj : s.jobs[j]? = some job)
    (hpc : job.pc = .fresh) : Safe (s.start j job) := by
  unfold State.start
  split
  · refine safe_setJob h hj (.finish job true) fun hsettled => ?_
    -- the callbacks of a task that has not begun have not run
    have hdone := h.callback hj hsettled
    simp [Job.done, hpc] at hdone
  · refine safe_update h hj ⟨rfl, fun _ => by simp [Job.done, hpc],
      fun _ => by simp [Job.waiting, hpc], fun _ => id, fun hcallback hrun => ?_⟩
      fun hsettled => nomatch hsettled
    have hdone := hcallback hrun
    simp [Job.done, hpc] at hdone

theorem safe_transport {s : State} (h : Safe s) {row : Nat}
    (hlate : ¬ DispatchedSince row s.log) : Safe { s with log := .transport row :: s.log } where
  rowBound := h.rowBound
  rowInj := h.rowInj
  running := h.running
  settled := h.settled
  callback := h.callback
  created hi := h.created ((List.mem_cons.1 hi).resolve_left Event.noConfusion)
  dispatched hj hwaiting hdispatched :=
    h.dispatched hj hwaiting (hdispatched.cons Event.noConfusion)
  noLate := ⟨hlate, h.noLate⟩

/-- The transport call begins only without a cancellation pending, so before any later
dispatch. -/
theorem safe_predicted {s s' : State} (h : Safe s) {j : Nat} {job : Job}
    (hj : s.jobs[j]? = some job) (hpc : job.pc = .predicting) (now : Nat)
    (hstep : s.predicted j job now = some s') : Safe s' := by
  unfold State.predicted at hstep
  split at hstep
  · cases hstep
    exact safe_settle h hj now rfl none
  · rename_i hpending
    split at hstep
    · cases hstep
    · cases hstep
      exact safe_settle h hj now rfl none
    · cases hstep
      exact safe_settle h hj now rfl _
    · rename_i ids _
      have hids : Safe (s.setRow job.row fun row => { row with predictionIds := some ids }) :=
        safe_setRow h job.row fun _ => rfl
      dsimp only at hstep
      split at hstep
      · cases hstep
        exact safe_settle hids hj now rfl none
      · cases hstep
        have hwaiting : job.waiting = true := by simp [Job.waiting, hpc]
        have hlate : ¬ DispatchedSince job.row s.log :=
          fun hdispatched => hpending (h.dispatched hj hwaiting hdispatched)
        have hcall : Keeps job { job with pc := .inTransport job.cancelling false } :=
          ⟨rfl, fun _ => Job.waiting_not_done hwaiting, fun _ => hwaiting, fun _ => id,
            fun hcallback hrun => by
              have hdone := hcallback hrun
              rw [Job.waiting_not_done hwaiting] at hdone
              cases hdone⟩
        have hflight := safe_update hids hj
          (f := fun job => { job with pc := .inTransport job.cancelling false })
          (g := fun row => { row with status := .inFlight, preparationDispatch := some now })
          hcall fun hsettled => nomatch hsettled
        exact safe_transport hflight hlate

theorem safe_transported {s : State} (h : Safe s) {j : Nat} {job : Job}
    (hj : s.jobs[j]? = some job) {cancelling : Nat} {expiring : Bool}
    (hpc : job.pc = .inTransport cancelling expiring) (now : Nat) (transport : Transport) :
    Safe (s.transported j job now cancelling expiring transport) := by
  cases transport with
  | waits =>
    refine safe_setJob h hj ⟨rfl, id, id, fun hwaiting => ?_, id⟩ id
    simp [Job.waiting, hpc] at hwaiting
  | returns => exact safe_settle h hj now rfl none
  | fails errorType => exact safe_settle h hj now rfl _
  | cancelled =>
    unfold State.transported
    dsimp only
    split
    · exact safe_settle h hj now rfl _
    · exact safe_settle h hj now rfl none

theorem safe_resume {s s' : State} (h : Safe s) {j now : Nat} {transport : Transport}
    (hstep : s.resume j now transport = some s') : Safe s' := by
  unfold State.resume at hstep
  split at hstep
  · cases hstep
  · rename_i job hj
    split at hstep
    · rename_i hpc
      cases hstep
      exact safe_start h hj hpc
    · rename_i hpc
      exact safe_predicted h hj hpc now hstep
    · rename_i hpc
      cases hstep
      exact safe_transported h hj hpc now transport
    · cases hstep

/-! ## The thread, the timeout and the callback -/

theorem safe_predictionStarts {s s' : State} (h : Safe s) {j now : Nat}
    (hstep : s.predictionStarts j now = some s') : Safe s' := by
  unfold State.predictionStarts at hstep
  split at hstep
  · split at hstep
    · cases hstep
    · cases hstep
    · cases hstep
      exact safe_setRow h _ fun _ => rfl
  · cases hstep

theorem safe_predictionFinishes {s s' : State} (h : Safe s) {j now : Nat} {prediction : Prediction}
    (hstep : s.predictionFinishes j now prediction = some s') : Safe s' := by
  unfold State.predictionFinishes at hstep
  split at hstep
  · rename_i job hj
    split at hstep
    · cases hstep
    · cases hstep
    · cases hstep
    · cases hstep
      have hrow := safe_setRow h job.row
        (g := fun row => { row with cpuFinished := some now }) fun _ => rfl
      exact safe_setJob hrow hj ⟨rfl, id, id, fun _ => id, id⟩ id
  · cases hstep

theorem safe_timeoutFires {s s' : State} (h : Safe s) {j : Nat}
    (hstep : s.timeoutFires j = some s') : Safe s' := by
  unfold State.timeoutFires at hstep
  split at hstep
  · rename_i job hj
    split at hstep
    · rename_i cancelling hpc
      cases hstep
      have hrunning : job.done = false := by simp [Job.done, hpc]
      refine safe_setJob h hj ⟨job.cancel_row, fun _ => hrunning, fun hwaiting => (nomatch hwaiting),
        fun hwaiting => (nomatch hwaiting), fun hcallback hrun => ?_⟩ fun hsettled => nomatch hsettled
      rw [Job.cancel_callbackRun] at hrun
      rw [hcallback hrun] at hrunning
      cases hrunning
    · cases hstep
  · cases hstep

theorem safe_runCallback {s s' : State} (h : Safe s) {j now : Nat}
    (hstep : s.runCallback j now = some s') : Safe s' := by
  unfold State.runCallback at hstep
  split at hstep
  · rename_i job hj
    split at hstep
    · rename_i cancelled hpc _
      cases hstep
      have hkeeps : Keeps job { job with callbackRun := true } :=
        ⟨rfl, id, id, fun _ => id, fun _ _ => by simp [Job.done, hpc]⟩
      cases cancelled with
      | false => exact safe_setJob h hj hkeeps fun _ => by simp [Job.settled, hpc]
      | true =>
        exact safe_update h hj hkeeps
          (g := fun row => { row with status := .cancelledBeforeStart, ended := some now })
          fun _ _ _ => rfl
    · cases hstep
  · cases hstep

theorem safe_drainCancel {s : State} (h : Safe s) : Safe s.drainCancel := by
  refine h.of_keeps (fun {j} job' hj => ?_) rfl rfl rfl
  simp only [State.drainCancel, List.getElem?_map, Option.map_eq_some_iff] at hj
  obtain ⟨job, hj, rfl⟩ := hj
  exact ⟨job, hj, .cancel job, fun hsettled => h.settled hj (by rwa [Job.cancel_settled] at hsettled)⟩

/-! ## Runs -/

/-- **Every step keeps the invariant.** -/
theorem step_safe {enabled : Bool} {s s' : State} (h : Safe s) {action : Action}
    (hstep : step enabled s action = some s') : Safe s' := by
  cases action with
  | beforeDispatch now =>
    cases hstep
    exact safe_beforeDispatch h now
  | afterResponse now requestId issue =>
    cases hstep
    exact safe_afterResponse h enabled now requestId issue
  | resume j now transport => exact safe_resume h hstep
  | predictionStarts j now => exact safe_predictionStarts h hstep
  | predictionFinishes j now prediction => exact safe_predictionFinishes h hstep
  | timeoutFires j => exact safe_timeoutFires h hstep
  | runCallback j now => exact safe_runCallback h hstep
  | drainCancel =>
    cases hstep
    exact safe_drainCancel h

theorem rolling_safe {enabled : Bool} {actions : List Action} {s : State}
    (hrun : Runs.run (step enabled) .init actions = some s) : Safe s :=
  Runs.run_induction (fun _ _ _ h hstep => step_safe h hstep) safe_init hrun

/-! ## Rows of the calls -/

/-- The response that a row was made for. -/
def Row.response (row : Row) : String × Nat := (row.triggerRequestId, row.snapshotReady)

def Action.response : Action → Option (String × Nat)
  | .afterResponse now requestId _ => some (requestId, now)
  | _ => none

def State.responses (s : State) : List (String × Nat) := s.attempts.map Row.response

theorem setRow_responses (s : State) (i : Nat) {f : Row → Row}
    (hf : ∀ row, (f row).response = row.response) : (s.setRow i f).responses = s.responses := by
  refine List.ext_getElem? fun k => ?_
  simp only [State.responses, State.setRow, List.getElem?_map, List.getElem?_modify]
  cases s.attempts[k]? with
  | none => rfl
  | some row =>
    simp only [Option.map_eq_map, Option.map_some]
    split
    · rw [hf]
    · rfl

@[simp] theorem setJob_responses (s : State) (j : Nat) (f : Job → Job) :
    (s.setJob j f).responses = s.responses := rfl

theorem beforeDispatch_responses (s : State) (now : Nat) :
    (s.beforeDispatch now).responses = s.responses := by
  have hmark : (s.setRow (s.attempts.length - 1) fun row =>
      { row with nextDispatch := some now }).responses = s.responses :=
    setRow_responses s _ fun _ => rfl
  have hrequest (t : State) (i : Nat) :
      (t.setRow i fun row => { row with cancelRequested := some now }).responses = t.responses :=
    setRow_responses t i fun _ => rfl
  obtain ⟨attempts, jobs, active, activeRow, log⟩ := s
  unfold State.beforeDispatch
  dsimp only
  split
  · cases activeRow with
    | none => cases active <;> exact hmark
    | some i => cases active <;> exact (hrequest _ i).trans hmark
  · exact hmark

theorem afterResponse_responses (enabled : Bool) (s : State) (now : Nat) (requestId : String)
    (issue : Option String) :
    (s.afterResponse enabled now requestId issue).responses = s.responses ++ [(requestId, now)] := by
  have happend (row : Row) (hrow : row.response = (requestId, now)) :
      (s.appendRow row).responses = s.responses ++ [(requestId, now)] := by
    simp [State.responses, State.appendRow, hrow]
  unfold State.afterResponse
  dsimp only
  split
  · exact happend _ rfl
  · split
    · exact happend _ rfl
    · split
      · exact happend _ rfl
      · exact happend _ rfl

theorem settle_responses (s : State) (j : Nat) (job : Job) (now : Nat) (status : Status)
    (errorType : Option String) : (s.settle j job now status errorType).responses = s.responses :=
  setRow_responses s job.row fun _ => rfl

theorem resume_responses {s s' : State} {j now : Nat} {transport : Transport}
    (hstep : s.resume j now transport = some s') : s'.responses = s.responses := by
  unfold State.resume at hstep
  split at hstep
  · cases hstep
  · rename_i job hj
    split at hstep
    · cases hstep
      unfold State.start
      split
      · rfl
      · exact setRow_responses s job.row fun _ => rfl
    · unfold State.predicted at hstep
      split at hstep
      · cases hstep
        exact settle_responses ..
      · split at hstep
        · cases hstep
        · cases hstep
          exact settle_responses ..
        · cases hstep
          exact settle_responses ..
        · rename_i ids _
          have hids : (s.setRow job.row fun row =>
              { row with predictionIds := some ids }).responses = s.responses :=
            setRow_responses s job.row fun _ => rfl
          dsimp only at hstep
          split at hstep
          · cases hstep
            exact (settle_responses ..).trans hids
          · cases hstep
            have hflight := setRow_responses (s.setRow job.row fun row =>
                { row with predictionIds := some ids }) job.row
              (f := fun row => { row with status := .inFlight, preparationDispatch := some now })
              fun _ => rfl
            exact hflight.trans hids
    · cases hstep
      unfold State.transported
      split
      · rfl
      · exact settle_responses ..
      · exact settle_responses ..
      · split
        · exact settle_responses ..
        · exact settle_responses ..
    · cases hstep

/-- A response appends one row, and nothing else touches what the rows were made for. -/
theorem step_responses {enabled : Bool} {s s' : State} {action : Action}
    (hstep : step enabled s action = some s') :
    s'.responses = s.responses ++ action.response.toList := by
  cases action with
  | beforeDispatch now =>
    cases hstep
    simpa [Action.response] using beforeDispatch_responses s now
  | afterResponse now requestId issue =>
    cases hstep
    exact afterResponse_responses enabled s now requestId issue
  | resume j now transport => simpa [Action.response] using resume_responses hstep
  | predictionStarts j now =>
    simp only [step, State.predictionStarts] at hstep
    split at hstep
    · split at hstep <;> cases hstep
      simp only [Action.response, Option.toList_none, List.append_nil]
      exact setRow_responses s _ fun _ => rfl
    · cases hstep
  | predictionFinishes j now prediction =>
    simp only [step, State.predictionFinishes] at hstep
    split at hstep
    · split at hstep <;> cases hstep
      simp only [Action.response, Option.toList_none, List.append_nil]
      exact setRow_responses s _ fun _ => rfl
    · cases hstep
  | timeoutFires j =>
    simp only [step, State.timeoutFires] at hstep
    split at hstep
    · split at hstep <;> cases hstep
      simp [Action.response]
    · cases hstep
  | runCallback j now =>
    simp only [step, State.runCallback] at hstep
    split at hstep
    · split at hstep <;> cases hstep
      simp only [Action.response, Option.toList_none, List.append_nil]
      split
      · exact setRow_responses _ _ fun _ => rfl
      · rfl
    · cases hstep
  | drainCancel =>
    cases hstep
    simp [Action.response, State.responses, State.drainCancel]

theorem run_responses {enabled : Bool} : ∀ {actions : List Action} {s s' : State},
    Runs.run (step enabled) s actions = some s' →
      s'.responses = s.responses ++ actions.filterMap Action.response
  | [], s, s', hrun => by
    cases hrun
    simp
  | action :: actions, s, s', hrun => by
    obtain ⟨middle, hstep, hrun⟩ := (Runs.run_cons_eq_some _).1 hrun
    rw [run_responses hrun, step_responses hstep, List.append_assoc]
    cases hresponse : action.response with
    | none => simp [hresponse]
    | some response => simp [hresponse]

/-! ## The result -/

theorem Job.settled_of_callback {job : Job} (hdone : job.done = true)
    (hcallback : job.callbackRun = true) : job.settled = true := by
  cases hpc : job.pc with
  | fresh => simp [Job.done, hpc] at hdone
  | predicting => simp [Job.done, hpc] at hdone
  | inTransport cancelling expiring => simp [Job.done, hpc] at hdone
  | finished cancelled => simp [Job.settled, hpc, hcallback]

/-- **Rolling preparation never competes with the foreground**: at most one task is unfinished, no
transport call begins after a dispatch that came later than its attempt, the rows are those of the
responses in their order, and the row of a task that is done, with its callbacks run, is over. -/
theorem rolling_preparation (enabled : Bool) (actions : List Action) (s : State)
    (hrun : Runs.run (step enabled) .init actions = some s) :
    (∀ (j k : Nat) (job job' : Job), s.jobs[j]? = some job → s.jobs[k]? = some job' →
      job.done = false → job'.done = false → j = k) ∧
    NoLate s.log ∧
    s.attempts.map Row.response = actions.filterMap Action.response ∧
    ∀ (j : Nat) (job : Job), s.jobs[j]? = some job → job.done = true → job.callbackRun = true →
      ∃ row : Row, s.attempts[job.row]? = some row ∧ row.status.terminal = true ∧
        row.ended.isSome = true := by
  have hsafe := rolling_safe hrun
  refine ⟨fun j k job job' hj hk hdone hdone' => ?_, hsafe.noLate, run_responses hrun,
    fun j job hj hdone hcallback => ?_⟩
  · have hactive := hsafe.running hj hdone
    rw [hsafe.running hk hdone'] at hactive
    exact (Option.some.inj hactive).symm
  · obtain ⟨row, hrow, hover⟩ := hsafe.settled hj (Job.settled_of_callback hdone hcallback)
    exact ⟨row, hrow, by simpa [Row.over] using hover⟩

/-- A task that never got its first step, then one that is cancelled in front of its transport
call. -/
def exampleActions : List Action :=
  [.beforeDispatch 1, .afterResponse 2 "a" none, .beforeDispatch 3, .resume 0 4 .waits,
    .runCallback 0 5, .afterResponse 6 "b" none, .resume 1 7 .waits, .predictionStarts 1 8,
    .predictionFinishes 1 9 (.ids [151644]), .beforeDispatch 10, .resume 1 11 .waits,
    .runCallback 1 12]

def exampleState : State := (Runs.run (step true) .init exampleActions).getD .init

theorem rolling_preparation_exampleActions :
    exampleState.attempts.map Row.status = [.cancelledBeforeStart, .cancelled] ∧
    NoLate exampleState.log ∧
    exampleState.attempts.map Row.response = [("a", 2), ("b", 6)] :=
  have hrun : Runs.run (step true) .init exampleActions = some exampleState := by decide
  have hrolling := rolling_preparation true exampleActions exampleState hrun
  ⟨by decide, hrolling.2.1, hrolling.2.2.1⟩

end ReedCode.NextTurn.Rolling
