import ReedCode.Replay.Epoch

/-!
# Rows, requests and lines of an epoch

What holds of every task of an epoch, in whatever order the tasks take their steps.

* `Task.Stepped` — what an await can bring, and what the task makes of it;
* `Good` — the invariant of a task: its calls are the first turns of its workflow, in order, and
  its status says how the last of them ended;
* `Task.wire`, `Task.lines`, `Task.place`, `Good.adds` — what a task accounts for of the requests,
  the trace and the list of rows, and that its steps add just that;
* `Tells` — what can be read off the row of a task.
-/

set_option autoImplicit false

namespace ReedCode.Replay

open HarborAgent

/-! ## Steps -/

/-- What a row makes of how its last call ended; `last` when no turn is left. -/
inductive Verdict (last : Prop) : CallStatus → RowStatus → Prop
  | completed {id model : String} {timing : Value} {finishReason : Option String}
      {usage : Option Fields} {recorded : Option Bool} (hgoes : goesOn finishReason = true)
      (hlast : last) :
      Verdict last (.completed id model timing finishReason usage recorded) .completed
  | stopped {id model : String} {timing : Value} {finishReason : Option String}
      {usage : Option Fields} {recorded : Option Bool} (hgoes : goesOn finishReason = false) :
      Verdict last (.completed id model timing finishReason usage recorded)
        (stopStatus finishReason)
  | failed {name : String} {timing : Value} : Verdict last (.failed name timing) (errorStatus name)
  | timeout {timing : Value} : Verdict last (.failed "CancelledError" timing) .timeout
  | cancelled {timing : Value} : Verdict last (.failed "CancelledError" timing) .cancelled

/-- A call was answered, and its workflow goes on. -/
def CallStatus.passed : CallStatus → Bool
  | .completed _ _ _ finishReason _ _ => goesOn finishReason
  | _ => false

/-- How a task comes to its `finally` clause, with the lines it logs and the row it leaves. -/
inductive Closes (p : Task) : List Line → Row → Prop
  | wait {k : Nat} {row : Row} {status : RowStatus} (hphase : p.phase = .waiting k row)
      (hstatus : status = .timeout ∨ status = .cancelled) : Closes p [] { row with status }
  | answer {k : Nat} {row : Row} {answer : CallStatus} {status : RowStatus} {capped : Rat}
      (hphase : p.phase = .calling k row)
      (hverdict : Verdict (p.workflow.turns.length ≤ k + 1) answer status) :
      Closes p (row.answer answer).response
        { row.answer answer with status, cappedCompletionMs := capped }
  | unreadable {k : Nat} {row : Row} (hphase : p.phase = .calling k row) :
      Closes p [] { row with status := .error "AttributeError" }

/-- **The outcomes of an await.** -/
inductive Task.Stepped (E : Plan) (s : Epoch) (p : Task) : Epoch → Task → Prop
  | arrive (hphase : p.phase = .arriving) :
      Stepped E s p { s with arrived := s.arrived ++ [p.session] }
        { p with phase := .waiting 0 (p.newRow E) }
  | wake {k : Nat} {row : Row} {turn : Value} (hphase : p.phase = .waiting k row)
      (hturn : p.workflow.turns[k]? = some turn) :
      Stepped E s p (p.call E s k row turn).1 (p.call E s k row turn).2
  | pass {k : Nat} {row : Row} {answer : CallStatus} (hphase : p.phase = .calling k row)
      (hpassed : answer.passed = true) (hk : k + 1 < p.workflow.turns.length) :
      Stepped E s p (Task.logged s (row.answer answer))
        { p with phase := .waiting (k + 1) (row.answer answer) }
  | close {lines : List Line} {row : Row} {reraises interrupted : Bool}
      (hcloses : Closes p lines row)
      (hinterrupted : interrupted = true → p.interrupted = true ∨ s.aborted = true)
      (hcancelled : row.status = .cancelled → interrupted = true) :
      Stepped E s p { s with trace := s.trace ++ lines, sent := s.sent ++ [p.notice E] }
        { p with phase := .finishing row reraises, interrupted }
  | noticed {row : Row} {reraises : Bool} {final : Fields} {elapsed : Rat}
      (hphase : p.phase = .finishing row reraises) :
      Stepped E s p
        { s with trace := s.trace ++
          [.workflowEnd { row with sessionFinal := some final, elapsedMs := some elapsed }] }
        { p with phase := .done (some { row with
          sessionFinal := some final, elapsedMs := some elapsed }) reraises }
  | never (hphase : p.phase = .arriving) (haborted : s.aborted = true) :
      Stepped E s p s { p with phase := .done none true, interrupted := true }
  | lost {row : Row} {reraises : Bool} (hphase : p.phase = .finishing row reraises)
      (haborted : s.aborted = true) :
      Stepped E s p s { p with phase := .done (some row) true, interrupted := true }

variable {E : Plan} {s s' : Epoch} {p p' : Task}

theorem stopStatus_ne_cancelled (finishReason : Option String) :
    stopStatus finishReason ≠ .cancelled := by
  unfold stopStatus
  split <;> exact fun h => (by cases h)

theorem errorStatus_ne_cancelled (name : String) : errorStatus name ≠ .cancelled := by
  unfold errorStatus
  split <;> exact fun h => (by cases h)

/-- A task comes to its `finally` clause and logs nothing. -/
theorem Closes.silent {row : Row} {reraises interrupted : Bool} (hcloses : Closes p [] row)
    (hinterrupted : interrupted = true → p.interrupted = true ∨ s.aborted = true)
    (hcancelled : row.status = .cancelled → interrupted = true) :
    p.Stepped E s { s with sent := s.sent ++ [p.notice E] }
      { p with phase := .finishing row reraises, interrupted } := by
  have hclose : p.Stepped E s { s with trace := s.trace ++ [], sent := s.sent ++ [p.notice E] }
      { p with phase := .finishing row reraises, interrupted } :=
    .close hcloses hinterrupted hcancelled
  rwa [List.append_nil] at hclose

theorem replied_stepped {k : Nat} {row : Row} (hphase : p.phase = .calling k row) (choice : Choice)
    (usage : Option Fields) (model id : String) (timing : Value) (now : Rat) :
    p.Stepped E s (p.replied E s k row choice usage model id timing now).1
      (p.replied E s k row choice usage model id timing now).2 := by
  unfold Task.replied
  split
  · exact (Closes.unreadable hphase).silent (fun h => Or.inl h) fun h => (by cases h)
  · rename_i recorded _
    dsimp only
    split
    · rename_i hgoes
      split
      · rename_i hk
        exact .pass hphase hgoes hk
      · rename_i hk
        exact .close (.answer hphase (.completed hgoes (Nat.le_of_not_lt hk)))
          (fun h => Or.inl h) fun h => (by cases h)
    · rename_i hgoes
      rw [Bool.not_eq_true] at hgoes
      exact .close (.answer hphase (.stopped hgoes)) (fun h => Or.inl h)
        fun h => absurd h (stopStatus_ne_cancelled _)

theorem cancelled_stepped {timing : Value} (haborted : s.aborted = true)
    (h : p.cancelled E s timing = some (s', p')) : p.Stepped E s s' p' := by
  unfold Task.cancelled at h
  dsimp only at h
  split at h
  · rename_i hphase
    cases h
    exact .never hphase haborted
  · rename_i k row hphase
    cases h
    exact (Closes.wait hphase (Or.inr rfl)).silent (fun _ => Or.inr haborted) fun _ => rfl
  · rename_i k row hphase
    cases h
    exact .close (.answer hphase .cancelled) (fun _ => Or.inr haborted) fun _ => rfl
  · rename_i row reraises hphase
    cases h
    exact .lost hphase haborted
  · cases h

/-- **Every await has one of its outcomes.** -/
theorem own_stepped {action : Act} (h : p.own E s action = some (s', p')) :
    p.Stepped E s s' p' := by
  unfold Task.own at h
  split at h
  · rename_i habort
    split at h
    · exact cancelled_stepped habort.1 h
    · cases h
  unfold Task.act at h
  split at h
  · split at h
    · rename_i hphase
      cases h
      exact .arrive hphase
    · cases h
  · split at h
    · rename_i k row hphase
      obtain ⟨turn, hturn, h⟩ := Option.map_eq_some_iff.1 h
      cases h
      exact .wake hphase hturn
    · cases h
  · rename_i choice usage model id timing now
    split at h
    · rename_i k row hphase
      have hstepped := replied_stepped (E := E) (s := s) hphase choice usage model id timing now
      rw [Option.some.inj h] at hstepped
      exact hstepped
    · cases h
  · split at h
    · rename_i k row hphase
      cases h
      exact .close (.answer hphase .failed) (fun h => Or.inl h)
        fun h => absurd h (errorStatus_ne_cancelled _)
    · cases h
  · split at h
    · rename_i k row hphase
      cases h
      exact (Closes.wait hphase (Or.inl rfl)).silent (fun h => Or.inl h) fun h => (by cases h)
    · rename_i k row hphase
      cases h
      exact .close (.answer hphase .timeout) (fun h => Or.inl h) fun h => (by cases h)
    · cases h
  · split at h
    · rename_i row reraises hphase
      cases h
      exact .noticed hphase
    · cases h
  · cases h

/-! ## The invariant of a task -/

def Call.ident (call : Call) : String × Nat × String :=
  (call.session, call.turn, call.requestSha256)

/-- The calls of the first turns. -/
def idents (E : Plan) (p : Task) (n : Nat) : List (String × Nat × String) :=
  (p.workflow.turns.take n).mapIdx fun i turn => (p.session, i + 1, E.digest (turnRequest turn))

theorem idents_succ {k : Nat} {turn : Value} (h : p.workflow.turns[k]? = some turn) :
    idents E p (k + 1) = idents E p k ++ [(p.newCall E k turn).ident] := by
  obtain ⟨hk, hget⟩ := List.getElem?_eq_some_iff.1 h
  have hlength : (p.workflow.turns.take k).length = k := List.length_take_of_le hk.le
  unfold idents
  rw [List.take_succ, h, Option.toList_some, List.mapIdx_append, hlength]
  simp [Call.ident, Task.newCall]

/-- The calls of a row are the first turns of its workflow, in order. -/
structure InOrder (E : Plan) (p : Task) (row : Row) : Prop where
  session : row.session = p.session
  bound : row.calls.length ≤ p.workflow.turns.length
  idents : row.calls.map Call.ident = idents E p row.calls.length

/-- How a row comes to be closed. -/
inductive Reason (p : Task) (row : Row) : Prop
  | wait (hleft : row.calls.length < p.workflow.turns.length)
      (hpassed : ∀ call ∈ row.calls, call.status.passed = true)
      (hstatus : row.status = .timeout ∨ row.status = .cancelled)
  | answer {past : List Call} {call : Call} (hcalls : row.calls = past ++ [call])
      (hpassed : ∀ call ∈ past, call.status.passed = true)
      (hverdict : Verdict (p.workflow.turns.length ≤ row.calls.length) call.status row.status)
  | unreadable {past : List Call} {call : Call} (hcalls : row.calls = past ++ [call])
      (hpassed : ∀ call ∈ past, call.status.passed = true) (hcall : call.status = .running)
      (hstatus : row.status = .error "AttributeError")

/-- **The invariant of a task**, phase by phase. -/
inductive Good (E : Plan) (p : Task) : Phase → Prop
  | arriving : Good E p .arriving
  | waiting {k : Nat} {row : Row} (horder : InOrder E p row) (hk : k = row.calls.length)
      (hleft : k < p.workflow.turns.length)
      (hpassed : ∀ call ∈ row.calls, call.status.passed = true) (hstatus : row.status = .running)
      (hopen : row.sessionFinal = none) : Good E p (.waiting k row)
  | calling {k : Nat} {row : Row} {past : List Call} {call : Call} (horder : InOrder E p row)
      (hcalls : row.calls = past ++ [call]) (hk : k = past.length)
      (hpassed : ∀ call ∈ past, call.status.passed = true) (hcall : call.status = .running)
      (hstatus : row.status = .running) (hopen : row.sessionFinal = none) :
      Good E p (.calling k row)
  | finishing {row : Row} {reraises : Bool} (horder : InOrder E p row) (hreason : Reason p row)
      (hopen : row.sessionFinal = none)
      (hcancelled : row.status = .cancelled → p.interrupted = true) :
      Good E p (.finishing row reraises)
  | done {row : Row} {cancelled : Bool} (horder : InOrder E p row) (hreason : Reason p row)
      (hcancelled : row.status = .cancelled ∨ row.sessionFinal = none → p.interrupted = true) :
      Good E p (.done (some row) cancelled)
  | never {cancelled : Bool} (hinterrupted : p.interrupted = true) : Good E p (.done none cancelled)

section Answers

variable {row : Row} {past : List Call} {call : Call}

theorem answer_calls (hcalls : row.calls = past ++ [call]) (status : CallStatus) :
    (row.answer status).calls = past ++ [{ call with status }] := by
  simp [Row.answer, hcalls]

theorem answer_response (hcalls : row.calls = past ++ [call]) (status : CallStatus) :
    (row.answer status).response = [.response { call with status }] := by
  simp [Row.response, answer_calls hcalls status]

theorem InOrder.answer (h : InOrder E p row) (hcalls : row.calls = past ++ [call])
    (status : CallStatus) : InOrder E p (row.answer status) := by
  have hlength : (row.answer status).calls.length = row.calls.length := by
    rw [answer_calls hcalls, hcalls, List.length_append, List.length_append]
    rfl
  refine ⟨h.session, hlength ▸ h.bound, ?_⟩
  rw [hlength, ← h.idents, answer_calls hcalls, hcalls, List.map_append, List.map_append]
  rfl

end Answers

/-- What a task comes to its `finally` clause with. -/
theorem Closes.good {lines : List Line} {row : Row} (hcloses : Closes p lines row)
    (h : Good E p p.phase) : InOrder E p row ∧ Reason p row ∧ row.sessionFinal = none := by
  cases hcloses with
  | wait hphase hstatus =>
    rw [hphase] at h
    cases h with
    | waiting horder hk hleft hpassed _ hopen =>
      exact ⟨⟨horder.session, horder.bound, horder.idents⟩, .wait (hk ▸ hleft) hpassed hstatus,
        hopen⟩
  | @answer k row answer status capped hphase hverdict =>
    rw [hphase] at h
    cases h with
    | @calling _ _ past call horder hcalls hk hpassed _ _ hopen =>
      have horder' := horder.answer hcalls answer
      have hcalls' := answer_calls hcalls answer
      refine ⟨⟨horder'.session, horder'.bound, horder'.idents⟩, .answer hcalls' hpassed ?_, hopen⟩
      have hlength : (row.answer answer).calls.length = k + 1 := by
        rw [hcalls', List.length_append, hk]
        rfl
      dsimp only
      rw [hlength]
      exact hverdict
  | unreadable hphase =>
    rw [hphase] at h
    cases h with
    | calling horder hcalls _ hpassed hcall _ hopen =>
      exact ⟨⟨horder.session, horder.bound, horder.idents⟩,
        .unreadable hcalls hpassed hcall rfl, hopen⟩

/-- The invariant is about the workflow and the session of a task. -/
theorem InOrder.congr {row : Row} (h : InOrder E p row) (hworkflow : p'.workflow = p.workflow)
    (hsession : p'.session = p.session) : InOrder E p' row := by
  refine ⟨hsession ▸ h.session, hworkflow ▸ h.bound, ?_⟩
  rw [h.idents, Replay.idents, Replay.idents, hworkflow, hsession]

theorem Reason.congr {row : Row} (h : Reason p row) (hworkflow : p'.workflow = p.workflow) :
    Reason p' row := by
  cases h with
  | wait hleft hpassed hstatus => exact .wait (hworkflow ▸ hleft) hpassed hstatus
  | answer hcalls hpassed hverdict => exact .answer hcalls hpassed (hworkflow ▸ hverdict)
  | unreadable hcalls hpassed hcall hstatus => exact .unreadable hcalls hpassed hcall hstatus

/-- **A step keeps the invariant of its task.** -/
theorem Good.step (h : Good E p p.phase) (hstep : p.Stepped E s s' p') : Good E p' p'.phase := by
  cases hstep with
  | arrive hphase =>
    refine .waiting ⟨rfl, Nat.zero_le _, rfl⟩ rfl ?_ (fun call hcall => by cases hcall) rfl rfl
    exact List.length_pos_iff.2 p.workflow.some
  | @wake k row turn hphase hturn =>
    rw [hphase] at h
    cases h with
    | waiting horder hk hleft hpassed hstatus hopen =>
      refine .calling ⟨horder.session, ?_, ?_⟩ rfl hk hpassed rfl hstatus hopen
      · rw [List.length_append, ← hk]
        exact hleft
      · rw [List.map_append, horder.idents, List.length_append, ← hk]
        exact (idents_succ hturn).symm
  | @pass k row answer hphase hpass hk =>
    rw [hphase] at h
    cases h with
    | calling horder hcalls hlength hpassed _ hstatus hopen =>
      have hcalls' := answer_calls hcalls answer
      refine .waiting ((horder.answer hcalls answer).congr rfl rfl) ?_ hk ?_ hstatus hopen
      · rw [hcalls', List.length_append, hlength]
        rfl
      · rw [hcalls']
        exact List.forall_mem_append.2 ⟨hpassed, List.forall_mem_singleton.2 hpass⟩
  | close hcloses hinterrupted hcancelled =>
    obtain ⟨horder, hreason, hopen⟩ := hcloses.good h
    exact .finishing (horder.congr rfl rfl) (hreason.congr rfl) hopen hcancelled
  | noticed hphase =>
    rw [hphase] at h
    cases h with
    | finishing horder hreason hopen hcancelled =>
      refine .done ⟨horder.session, horder.bound, horder.idents⟩ ?_ fun hlost =>
        hlost.elim hcancelled fun hnone => by cases hnone
      cases hreason with
      | wait hleft hpassed hstatus => exact .wait hleft hpassed hstatus
      | answer hcalls hpassed hverdict => exact .answer hcalls hpassed hverdict
      | unreadable hcalls hpassed hcall hstatus => exact .unreadable hcalls hpassed hcall hstatus
  | never _ _ => exact .never rfl
  | lost hphase _ =>
    rw [hphase] at h
    cases h with
    | finishing horder hreason _ _ =>
      exact .done (horder.congr rfl rfl) (hreason.congr rfl) fun _ => rfl

/-! ## What a task accounts for -/

/-- The row of a task that has arrived. -/
def Phase.row? : Phase → Option Row
  | .arriving => none
  | .waiting _ row | .calling _ row | .finishing row _ => some row
  | .done row _ => row

/-- The `try` of the task is over. -/
def Phase.ended : Phase → Bool
  | .finishing _ _ | .done _ _ => true
  | _ => false

/-- The task is over. -/
def Phase.over : Phase → Bool
  | .done _ _ => true
  | _ => false

/-- The lines of a call. -/
def Call.lines (call : Call) : List Line :=
  .request { call with status := .running } ::
    if call.status = .running then [] else [.response call]

/-- What the session of a task sends: the requests of its first turns, and the final notice. -/
def Task.wire (E : Plan) (p : Task) : List Sent :=
  match p.phase.row? with
  | some row => (p.workflow.turns.take row.calls.length).map (p.request E) ++
      if p.phase.ended then [p.notice E] else []
  | none => []

/-- What the trace has of a task. -/
def Task.lines (p : Task) : List Line :=
  match p.phase.row? with
  | some row => row.calls.flatMap Call.lines ++
      if p.phase.over && row.sessionFinal.isSome then [.workflowEnd row] else []
  | none => []

/-- Its place among the rows. -/
def Task.place (p : Task) : List String :=
  match p.phase.row? with
  | some _ => [p.session]
  | none => []

section Answers

variable {row : Row} {past : List Call} {call : Call} {status : CallStatus}

theorem answer_lines (hcalls : row.calls = past ++ [call]) (hcall : call.status = .running)
    (hstatus : status ≠ .running) : (row.answer status).calls.flatMap Call.lines =
      row.calls.flatMap Call.lines ++ (row.answer status).response := by
  obtain ⟨session, turn, digest, _⟩ := call
  cases hcall
  rw [answer_calls hcalls, answer_response hcalls, hcalls, List.flatMap_append,
    List.flatMap_append, List.append_assoc]
  simp [Call.lines, hstatus]

theorem answer_length (hcalls : row.calls = past ++ [call]) :
    (row.answer status).calls.length = row.calls.length := by
  rw [answer_calls hcalls, hcalls, List.length_append, List.length_append]
  rfl

end Answers

theorem Verdict.ne_running {last : Prop} {answer : CallStatus} {status : RowStatus}
    (h : Verdict last answer status) : answer ≠ .running := by
  cases h <;> exact fun h => (by cases h)

theorem passed_ne_running {answer : CallStatus} (h : answer.passed = true) : answer ≠ .running := by
  rintro rfl
  cases h

/-- The calls of a row are in the session of its task. -/
theorem InOrder.call_session {row : Row} (h : InOrder E p row) {call : Call}
    (hcall : call ∈ row.calls) : call.session = p.session := by
  have hident : call.ident ∈ Replay.idents E p row.calls.length :=
    h.idents ▸ List.mem_map_of_mem hcall
  obtain ⟨i, hi, hmem⟩ := List.mem_mapIdx.1 hident
  exact (congrArg Prod.fst hmem).symm

/-- An answer is logged in the session of its task. -/
theorem InOrder.response_session {row : Row} {past : List Call} {call : Call}
    (h : InOrder E p row) (hcalls : row.calls = past ++ [call]) (status : CallStatus) :
    ∀ line ∈ (row.answer status).response, line.session = p.session := by
  intro line hline
  rw [answer_response hcalls] at hline
  rw [List.mem_singleton.1 hline]
  have hcall : call ∈ row.calls := hcalls ▸ List.mem_append_right _ List.mem_cons_self
  have hsession := h.call_session hcall
  exact hsession

/-- The row that a task comes to its `finally` clause with, against the row it had. -/
theorem Closes.before {lines : List Line} {row : Row} (hcloses : Closes p lines row)
    (h : Good E p p.phase) : ∃ before, p.phase.row? = some before ∧ p.phase.ended = false ∧
      p.phase.over = false ∧ row.calls.length = before.calls.length ∧
      row.calls.flatMap Call.lines = before.calls.flatMap Call.lines ++ lines ∧
      ∀ line ∈ lines, line.session = p.session := by
  cases hcloses with
  | wait hphase _ =>
    rw [hphase]
    exact ⟨_, rfl, rfl, rfl, rfl, (List.append_nil _).symm, nofun⟩
  | answer hphase hverdict =>
    rw [hphase] at h ⊢
    cases h with
    | calling horder hcalls _ _ hcall _ _ =>
      exact ⟨_, rfl, rfl, rfl, answer_length hcalls,
        answer_lines hcalls hcall hverdict.ne_running, horder.response_session hcalls _⟩
  | unreadable hphase =>
    rw [hphase]
    exact ⟨_, rfl, rfl, rfl, rfl, (List.append_nil _).symm, nofun⟩

/-- What a task accounts for with its row. -/
theorem accounts_row {row : Row} (h : p.phase.row? = some row) :
    p.wire E = (p.workflow.turns.take row.calls.length).map (p.request E) ++
        (if p.phase.ended then [p.notice E] else []) ∧
      p.lines = row.calls.flatMap Call.lines ++
        (if p.phase.over && row.sessionFinal.isSome then [.workflowEnd row] else []) ∧
      p.place = [p.session] := by
  unfold Task.wire Task.lines Task.place
  rw [h]
  exact ⟨rfl, rfl, rfl⟩

theorem accounts_none (h : p.phase.row? = none) :
    p.wire E = [] ∧ p.lines = [] ∧ p.place = [] := by
  unfold Task.wire Task.lines Task.place
  rw [h]
  exact ⟨rfl, rfl, rfl⟩

/-- What a step adds to the requests sent, the lines of the trace and the list of rows. -/
structure Adds (E : Plan) (s s' : Epoch) (p p' : Task) (sent : List Sent) (lines : List Line)
    (place : List String) : Prop where
  sent : s'.sent = s.sent ++ sent ∧ (∀ e ∈ sent, e.session = p.session) ∧
    p'.wire E = p.wire E ++ sent
  trace : s'.trace = s.trace ++ lines ∧ (∀ line ∈ lines, line.session = p.session) ∧
    p'.lines = p.lines ++ lines
  arrived : s'.arrived = s.arrived ++ place ∧ (∀ session ∈ place, session = p.session) ∧
    p'.place = p.place ++ place

/-- **What a step adds** is what its task accounts for. -/
theorem Good.adds (h : Good E p p.phase) (hstep : p.Stepped E s s' p') :
    ∃ sent lines place, Adds E s s' p p' sent lines place := by
  cases hstep with
  | arrive hphase =>
    have hbefore : p.phase.row? = none := by rw [hphase]; rfl
    obtain ⟨hwire, htrace, hplace⟩ := accounts_none (E := E) hbefore
    refine ⟨[], [], [p.session], ⟨(List.append_nil _).symm, nofun, ?_⟩,
      ⟨(List.append_nil _).symm, nofun, ?_⟩, ⟨rfl, fun _ => List.mem_singleton.1, ?_⟩⟩
    · rw [hwire]
      rfl
    · rw [htrace]
      rfl
    · rw [hplace]
      rfl
  | @wake k row turn hphase hturn =>
    rw [hphase] at h
    cases h with
    | waiting horder hk hleft hpassed hstatus hopen =>
    have hbefore : p.phase.row? = some row := by rw [hphase]; rfl
    obtain ⟨hwire, htrace, hplace⟩ := accounts_row (E := E) hbefore
    refine ⟨[p.request E turn], [.request (p.newCall E k turn)], [],
      ⟨rfl, fun e he => ?_, ?_⟩, ⟨rfl, fun line hline => ?_, ?_⟩,
      ⟨(List.append_nil _).symm, nofun, ?_⟩⟩
    · rw [List.mem_singleton.1 he]
      rfl
    · have hafter : (p.call E s k row turn).2.wire E =
          (p.workflow.turns.take (row.calls ++ [p.newCall E k turn]).length).map (p.request E) ++
            [] := rfl
      rw [hafter, hwire, hphase, List.length_append, ← hk, List.length_singleton, List.take_succ,
        hturn, List.append_nil, List.map_append]
      simp [Phase.ended]
    · rw [List.mem_singleton.1 hline]
      rfl
    · have hafter : (p.call E s k row turn).2.lines =
          (row.calls ++ [p.newCall E k turn]).flatMap Call.lines ++ [] := rfl
      rw [hafter, htrace, hphase, List.flatMap_append]
      simp [Phase.over, Call.lines, Task.newCall]
    · rw [hplace]
      rfl
  | @pass k row answer hphase hpass hk =>
    rw [hphase] at h
    cases h with
    | calling horder hcalls hlength hpassed hcall hstatus hopen =>
    have hbefore : p.phase.row? = some row := by rw [hphase]; rfl
    obtain ⟨hwire, htrace, hplace⟩ := accounts_row (E := E) hbefore
    refine ⟨[], (row.answer answer).response, [], ⟨(List.append_nil _).symm, nofun, ?_⟩,
      ⟨rfl, horder.response_session hcalls answer, ?_⟩, ⟨(List.append_nil _).symm, nofun, ?_⟩⟩
    · rw [hwire, hphase, List.append_nil, ← answer_length hcalls]
      rfl
    · have hafter : ({ p with phase := .waiting (k + 1) (row.answer answer) } : Task).lines =
          (row.answer answer).calls.flatMap Call.lines ++ [] := rfl
      rw [hafter, htrace, hphase, answer_lines hcalls hcall (passed_ne_running hpass)]
      simp [Phase.over]
    · rw [hplace]
      rfl
  | @close lines row reraises interrupted hcloses hinterrupted hcancelled =>
    obtain ⟨before, hbefore, hended, hover, hlength, hflat, hsession⟩ := hcloses.before h
    obtain ⟨hwire, htrace, hplace⟩ := accounts_row (E := E) hbefore
    refine ⟨[p.notice E], lines, [], ⟨rfl, fun e he => ?_, ?_⟩, ⟨rfl, hsession, ?_⟩,
      ⟨(List.append_nil _).symm, nofun, ?_⟩⟩
    · rw [List.mem_singleton.1 he]
      rfl
    · have hafter : ({ p with phase := .finishing row reraises, interrupted } : Task).wire E =
          (p.workflow.turns.take row.calls.length).map (p.request E) ++ [p.notice E] := rfl
      rw [hafter, hwire, hended, hlength]
      simp
    · have hafter : ({ p with phase := .finishing row reraises, interrupted } : Task).lines =
          row.calls.flatMap Call.lines ++ [] := rfl
      rw [hafter, htrace, hover, hflat]
      simp
    · rw [hplace]
      rfl
  | @noticed row reraises final elapsed hphase =>
    rw [hphase] at h
    cases h with
    | finishing horder hreason hopen hcancelled =>
    have hbefore : p.phase.row? = some row := by rw [hphase]; rfl
    obtain ⟨hwire, htrace, hplace⟩ := accounts_row (E := E) hbefore
    refine ⟨[], [.workflowEnd { row with
      sessionFinal := some final, elapsedMs := some elapsed }], [],
      ⟨(List.append_nil _).symm, nofun, ?_⟩, ⟨rfl, fun line hline => ?_, ?_⟩,
      ⟨(List.append_nil _).symm, nofun, ?_⟩⟩
    · rw [hwire, hphase, List.append_nil]
      rfl
    · rw [List.mem_singleton.1 hline]
      exact horder.session
    · rw [htrace, hphase]
      simp [Task.lines, Phase.row?, Phase.over]
    · rw [hplace]
      rfl
  | never hphase _ =>
    have hbefore : p.phase.row? = none := by rw [hphase]; rfl
    obtain ⟨hwire, htrace, hplace⟩ := accounts_none (E := E) hbefore
    refine ⟨[], [], [], ⟨(List.append_nil _).symm, nofun, ?_⟩,
      ⟨(List.append_nil _).symm, nofun, ?_⟩, ⟨(List.append_nil _).symm, nofun, ?_⟩⟩
    · rw [hwire]
      rfl
    · rw [htrace]
      rfl
    · rw [hplace]
      rfl
  | @lost row reraises hphase _ =>
    rw [hphase] at h
    cases h with
    | finishing horder hreason hopen hcancelled =>
    have hbefore : p.phase.row? = some row := by rw [hphase]; rfl
    obtain ⟨hwire, htrace, hplace⟩ := accounts_row (E := E) hbefore
    refine ⟨[], [], [], ⟨(List.append_nil _).symm, nofun, ?_⟩,
      ⟨(List.append_nil _).symm, nofun, ?_⟩, ⟨(List.append_nil _).symm, nofun, ?_⟩⟩
    · rw [hwire, hphase, List.append_nil]
      rfl
    · rw [htrace, hphase]
      simp [Task.lines, Phase.row?, Phase.over, hopen]
    · rw [hplace]
      rfl

/-! ## Verdicts -/

/-- A row is completed exactly when all its turns were answered and passed. -/
def Row.Complete (row : Row) (p : Task) : Prop :=
  row.calls.length = p.workflow.turns.length ∧ ∀ call ∈ row.calls, call.status.passed = true

theorem stopStatus_ne_completed (finishReason : Option String) :
    stopStatus finishReason ≠ .completed := by
  unfold stopStatus
  split <;> exact fun h => (by cases h)

theorem errorStatus_ne_completed (name : String) : errorStatus name ≠ .completed := by
  unfold errorStatus
  split <;> exact fun h => (by cases h)

theorem Verdict.completed_iff {last : Prop} {answer : CallStatus} {status : RowStatus}
    (h : Verdict last answer status) : status = .completed ↔ answer.passed = true := by
  cases h with
  | completed hgoes hlast => exact ⟨fun _ => hgoes, fun _ => rfl⟩
  | stopped hgoes =>
    refine ⟨fun h => absurd h (stopStatus_ne_completed _), fun h => ?_⟩
    rw [CallStatus.passed, hgoes] at h
    cases h
  | failed => exact ⟨fun h => absurd h (errorStatus_ne_completed _), fun h => (by cases h)⟩
  | timeout => exact ⟨fun h => (by cases h), fun h => (by cases h)⟩
  | cancelled => exact ⟨fun h => (by cases h), fun h => (by cases h)⟩

theorem Verdict.last {last : Prop} {answer : CallStatus} {status : RowStatus}
    (h : Verdict last answer status) (hpassed : answer.passed = true) : last := by
  cases h with
  | completed _ hlast => exact hlast
  | stopped hgoes =>
    rw [CallStatus.passed, hgoes] at hpassed
    cases hpassed
  | failed => cases hpassed
  | timeout => cases hpassed
  | cancelled => cases hpassed

theorem Verdict.ne_open {last : Prop} {answer : CallStatus} {status : RowStatus}
    (h : Verdict last answer status) : status ≠ .running := by
  cases h with
  | stopped _ =>
    unfold stopStatus
    split <;> exact fun h => (by cases h)
  | failed =>
    unfold errorStatus
    split <;> exact fun h => (by cases h)
  | _ => exact fun h => (by cases h)

variable {row : Row}

theorem Reason.completed_iff (h : Reason p row) (horder : InOrder E p row) :
    row.status = .completed ↔ row.Complete p := by
  cases h with
  | wait hleft hpassed hstatus =>
    refine ⟨fun h => ?_, fun h => absurd h.1 (Nat.ne_of_lt hleft)⟩
    rw [h] at hstatus
    rcases hstatus with hstatus | hstatus <;> cases hstatus
  | @answer past call hcalls hpassed hverdict =>
    rw [hverdict.completed_iff, Row.Complete, hcalls, List.forall_mem_append,
      List.forall_mem_singleton, ← hcalls]
    refine ⟨fun h => ⟨?_, hpassed, h⟩, fun h => h.2.2⟩
    exact Nat.le_antisymm horder.bound (hverdict.last h)
  | @unreadable past call hcalls hpassed hcall hstatus =>
    rw [hstatus, Row.Complete, hcalls, List.forall_mem_append, List.forall_mem_singleton, hcall]
    exact ⟨fun h => (by cases h), fun h => absurd h.2.2 Bool.false_ne_true⟩

theorem Reason.ne_running (h : Reason p row) : row.status ≠ .running := by
  cases h with
  | wait _ _ hstatus =>
    rcases hstatus with hstatus | hstatus <;> rw [hstatus] <;> exact fun h => (by cases h)
  | answer _ _ hverdict => exact hverdict.ne_open
  | unreadable _ _ _ hstatus =>
    rw [hstatus]
    exact fun h => (by cases h)

/-- What the row of a task says. -/
structure Tells (E : Plan) (p : Task) (row : Row) : Prop where
  order : InOrder E p row
  earlier : ∀ call ∈ row.calls.dropLast, call.status.passed = true
  completed : row.status = .completed ↔ row.Complete p
  ended : row.status = .running ↔ p.phase.ended = false
  cancelled : row.status = .cancelled → p.interrupted = true
  final : p.phase.over = true → row.sessionFinal = none → p.interrupted = true

theorem Reason.earlier (h : Reason p row) :
    ∀ call ∈ row.calls.dropLast, call.status.passed = true := by
  cases h with
  | wait _ hpassed _ =>
    exact fun call hcall => hpassed call ((List.dropLast_sublist _).subset hcall)
  | answer hcalls hpassed _ =>
    rw [hcalls, List.dropLast_concat]
    exact hpassed
  | unreadable hcalls hpassed _ _ =>
    rw [hcalls, List.dropLast_concat]
    exact hpassed

/-- **What the invariant makes of a row.** -/
theorem Good.tells (h : Good E p p.phase) (hrow : p.phase.row? = some row) : Tells E p row := by
  cases hphase : p.phase with
  | arriving =>
    rw [hphase] at hrow
    cases hrow
  | waiting k row' =>
    rw [hphase] at h hrow
    cases hrow
    cases h with
    | waiting horder hk hleft hpassed hstatus hopen =>
    refine ⟨horder, fun call hcall => hpassed call ((List.dropLast_sublist _).subset hcall),
      ?_, ?_, ?_, fun hover => ?_⟩
    · rw [hstatus]
      exact ⟨fun h => (by cases h), fun h => absurd (hk.trans h.1) (Nat.ne_of_lt hleft)⟩
    · rw [hstatus, hphase]
      exact ⟨fun _ => rfl, fun _ => rfl⟩
    · rw [hstatus]
      exact fun h => (by cases h)
    · rw [hphase] at hover
      cases hover
  | calling k row' =>
    rw [hphase] at h hrow
    cases hrow
    cases h with
    | calling horder hcalls hk hpassed hcall hstatus hopen =>
    refine ⟨horder, ?_, ?_, ?_, ?_, fun hover => ?_⟩
    · rw [hcalls, List.dropLast_concat]
      exact hpassed
    · rw [hstatus, Row.Complete, hcalls, List.forall_mem_append, List.forall_mem_singleton, hcall]
      exact ⟨fun h => (by cases h), fun h => absurd h.2.2 Bool.false_ne_true⟩
    · rw [hstatus, hphase]
      exact ⟨fun _ => rfl, fun _ => rfl⟩
    · rw [hstatus]
      exact fun h => (by cases h)
    · rw [hphase] at hover
      cases hover
  | finishing row' reraises =>
    rw [hphase] at h hrow
    cases hrow
    cases h with
    | finishing horder hreason hopen hcancelled =>
    refine ⟨horder, hreason.earlier, hreason.completed_iff horder, ?_, hcancelled, fun hover => ?_⟩
    · rw [hphase]
      exact ⟨fun h => absurd h hreason.ne_running, fun h => (by cases h)⟩
    · rw [hphase] at hover
      cases hover
  | done row' cancelled =>
    rw [hphase] at h hrow
    cases hrow
    cases h with
    | done horder hreason hcancelled =>
    refine ⟨horder, hreason.earlier, hreason.completed_iff horder, ?_,
      fun h => hcancelled (Or.inl h), fun _ h => hcancelled (Or.inr h)⟩
    rw [hphase]
    exact ⟨fun h => absurd h hreason.ne_running, fun h => (by cases h)⟩

end ReedCode.Replay
