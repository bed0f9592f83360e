import ReedCode.Replay.Capture
import ReedCode.Replay.Rows

/-!
# What an epoch replays

The tasks of an epoch together, in any order of their steps.

* `epoch_replays` — every session sends the requests of the first turns of its workflow, in
  order, and its final notice last; the trace has its lines unmixed; and its row says how far it
  came and why it ended;
* `captured_epoch` — of a captured run every session sends the first requests of the run as the
  agent sent them, and all of them when its row is completed.
-/

set_option autoImplicit false

namespace ReedCode.Replay

open HarborAgent Processes

variable {E : Plan}

/-! ## The rules -/

/-- What is known of every task. -/
def Known (E : Plan) (s : Epoch) (p : Task) : Prop :=
  Good E p p.phase ∧ (p.interrupted = true → s.aborted = true)

theorem Task.Stepped.aborted {s s' : Epoch} {p p' : Task} (h : p.Stepped E s s' p') :
    s'.aborted = s.aborted := by
  cases h <;> rfl

theorem Task.Stepped.same {s s' : Epoch} {p p' : Task} (h : p.Stepped E s s' p') :
    p'.workflow = p.workflow ∧ p'.copy = p.copy ∧ p'.session = p.session := by
  cases h <;> exact ⟨rfl, rfl, rfl⟩

theorem Task.Stepped.interrupted {s s' : Epoch} {p p' : Task} (h : p.Stepped E s s' p')
    (hp : p.interrupted = true → s.aborted = true) :
    p'.interrupted = true → s'.aborted = true := by
  rw [h.aborted]
  cases h with
  | close _ hinterrupted _ => exact fun h => (hinterrupted h).elim hp id
  | never _ haborted => exact fun _ => haborted
  | lost _ haborted => exact fun _ => haborted
  | _ => exact hp

theorem rely : Rely (system E) fun s s' => s.aborted = true → s'.aborted = true := by
  refine ⟨fun h => ?_, fun h => ?_, fun {s c} => c.elim⟩
  · rw [(own_stepped h).aborted]
    exact id
  · cases h
    exact fun _ => rfl

theorem stable : Stable (system E) (fun s s' => s.aborted = true → s'.aborted = true)
    (Known E) := by
  refine ⟨fun hp h => ?_, fun hp hs => ⟨hp.1, fun h => hs (hp.2 h)⟩⟩
  have hstep := own_stepped h
  exact ⟨hp.1.step hstep, hstep.interrupted hp.2⟩

theorem journal_sent : Journal (system E) (Known E) Epoch.sent Sent.session Task.session
    (Task.wire E) := by
  refine ⟨fun hp h => ?_, fun h => ?_, fun {s c} => c.elim⟩
  · have hstep := own_stepped h
    obtain ⟨sent, lines, place, hadds⟩ := hp.1.adds hstep
    exact ⟨hstep.same.2.2, sent, hadds.sent⟩
  · cases h
    rfl

theorem journal_trace : Journal (system E) (Known E) Epoch.trace Line.session Task.session
    Task.lines := by
  refine ⟨fun hp h => ?_, fun h => ?_, fun {s c} => c.elim⟩
  · have hstep := own_stepped h
    obtain ⟨sent, lines, place, hadds⟩ := hp.1.adds hstep
    exact ⟨hstep.same.2.2, lines, hadds.trace⟩
  · cases h
    rfl

theorem journal_arrived : Journal (system E) (Known E) Epoch.arrived id Task.session
    Task.place := by
  refine ⟨fun hp h => ?_, fun h => ?_, fun {s c} => c.elim⟩
  · have hstep := own_stepped h
    obtain ⟨sent, lines, place, hadds⟩ := hp.1.adds hstep
    exact ⟨hstep.same.2.2, place, hadds.arrived⟩
  · cases h
    rfl

/-! ## Runs of an epoch -/

/-- The tasks stay what they were created as. -/
theorem run_tasks {actions : List (Action Act Unit Empty)} {w w' : World Epoch Task}
    (hrun : Runs.run (system E).step w actions = some w') :
    w'.processes.map (fun p => (p.workflow, p.copy, p.session)) =
      w.processes.map fun p => (p.workflow, p.copy, p.session) := by
  refine Runs.run_induction (P := fun v : World Epoch Task =>
    v.processes.map (fun p => (p.workflow, p.copy, p.session)) =
      w.processes.map fun p => (p.workflow, p.copy, p.session)) ?_ rfl hrun
  intro v action v' hv hstep
  rw [← hv]
  cases System.step_stepped hstep with
  | @own i a p p' s hget hown =>
    obtain ⟨hworkflow, hcopy, hsession⟩ := (own_stepped hown).same
    refine List.ext_getElem? fun j => ?_
    by_cases hij : i = j
    · subst hij
      obtain ⟨hi, -⟩ := List.getElem?_eq_some_iff.1 hget
      rw [List.getElem?_map, List.getElem?_map, List.getElem?_set_self hi, hget, Option.map_some,
        Option.map_some, hworkflow, hcopy, hsession]
    · rw [List.getElem?_map, List.getElem?_map, List.getElem?_set_ne hij]
  | env _ => rfl
  | @enter c => exact c.elim

/-- **What an epoch has of a task is what its row says.** -/
structure Faithful (E : Plan) (s : Epoch) (p : Task) : Prop where
  /-- The requests of its first turns, in order; then, once it has ended, its final notice. -/
  wire : s.sent.filter (fun e => e.session = p.session) = p.wire E
  /-- The request and the answer of each call; then, once it is over, its row. -/
  trace : s.trace.filter (fun line => line.session = p.session) = p.lines
  place : s.arrived.filter (fun session => session = p.session) = p.place
  tells : ∀ row, p.phase.row? = some row → Tells E p row
  interrupted : p.interrupted = true → s.aborted = true
  /-- A task that is over has its row, unless it was cancelled before it arrived. -/
  listed : p.phase.over = true → p.phase.row? = none → p.interrupted = true

section Launch

variable {workflows : List Workflow} {copies : Nat} {session : Nat → Nat → String}

theorem launch_arriving {p : Task} (h : p ∈ launch workflows copies session) :
    p.phase = .arriving ∧ p.interrupted = false ∧ p.workflow ∈ workflows := by
  obtain ⟨number, -, h⟩ := List.mem_flatMap.1 h
  obtain ⟨i, hi, rfl⟩ := List.mem_mapIdx.1 h
  exact ⟨rfl, rfl, List.getElem_mem hi⟩

/-- The journals of an epoch are kept, each under the sessions of its tasks. -/
structure Kept (E : Plan) (w : World Epoch Task) : Prop where
  keys : (w.processes.map (·.session)).Nodup
  sent : w.Kept Epoch.sent Sent.session Task.session (Task.wire E)
  trace : w.Kept Epoch.trace Line.session Task.session Task.lines
  arrived : w.Kept Epoch.arrived id Task.session Task.place

/-- An epoch and its tasks, after any run. -/
theorem epoch_faithful (E : Plan) (workflows : List Workflow) (copies : Nat)
    (session : Nat → Nat → String)
    (hsessions : ((launch workflows copies session).map (·.session)).Nodup)
    {actions : List (Action Act Unit Empty)} {w : World Epoch Task}
    (hrun : Runs.run (system E).step ⟨.empty, launch workflows copies session⟩ actions = some w) :
    w.processes.map (fun p => (p.workflow, p.copy, p.session)) =
        (launch workflows copies session).map (fun p => (p.workflow, p.copy, p.session)) ∧
      (∀ p ∈ w.processes, Faithful E w.shared p) ∧ Kept E w := by
  have hstart : ∀ p ∈ launch workflows copies session, Known E .empty p := by
    intro p hp
    obtain ⟨hphase, hinterrupted, -⟩ := launch_arriving hp
    refine ⟨hphase ▸ .arriving, fun h => ?_⟩
    rw [hinterrupted] at h
    cases h
  have htasks := run_tasks hrun
  have hkeys : (w.processes.map (·.session)).Nodup := by
    have hsame := congrArg (List.map fun identity => identity.2.2) htasks
    rw [List.map_map, List.map_map] at hsame
    exact hsame ▸ hsessions
  have hempty : ∀ p ∈ launch workflows copies session,
      p.wire E = [] ∧ p.lines = [] ∧ p.place = [] := fun p hp =>
    accounts_none (by rw [(launch_arriving hp).1]; rfl)
  have hknown := stable.run_all rely (fun {s c} => c.elim) hstart hrun
  have hsent := journal_sent.run stable rely (fun {s c} => c.elim) hstart hrun hkeys
    ⟨fun p hp => (hempty p hp).1.symm, nofun⟩
  have htrace := journal_trace.run stable rely (fun {s c} => c.elim) hstart hrun hkeys
    ⟨fun p hp => (hempty p hp).2.1.symm, nofun⟩
  have harrived := journal_arrived.run stable rely (fun {s c} => c.elim) hstart hrun hkeys
    ⟨fun p hp => (hempty p hp).2.2.symm, nofun⟩
  refine ⟨htasks, fun p hp => ?_, ⟨hkeys, hsent, htrace, harrived⟩⟩
  obtain ⟨hgood, hinterrupted⟩ := hknown p hp
  refine ⟨hsent.kept p hp, htrace.kept p hp, harrived.kept p hp, fun row hrow => hgood.tells hrow,
    hinterrupted, fun hover hnone => ?_⟩
  cases hphase : p.phase with
  | done row cancelled =>
    rw [hphase] at hgood hnone
    cases hgood with
    | done => cases hnone
    | never h => exact h
  | _ =>
    rw [hphase] at hover
    cases hover

/-- The group is over, and nothing was cancelled. -/
def Finished (w : World Epoch Task) : Prop :=
  w.shared.aborted = false ∧ ∀ p ∈ w.processes, p.phase.over = true

/-- In an epoch that is finished every task has its row, with its final notice. -/
theorem finished_rows {w : World Epoch Task} (hfaithful : ∀ p ∈ w.processes, Faithful E w.shared p)
    (hfinished : Finished w) : ∀ p ∈ w.processes, ∃ row, p.phase.row? = some row ∧
      p.phase.ended = true ∧ row.status ≠ .running ∧ row.status ≠ .cancelled ∧
        row.sessionFinal.isSome = true := by
  intro p hp
  have hover := hfinished.2 p hp
  have hnot : p.interrupted ≠ true := fun h => by
    have haborted := (hfaithful p hp).interrupted h
    rw [hfinished.1] at haborted
    cases haborted
  have hended : p.phase.ended = true := by
    cases hphase : p.phase with
    | done row cancelled => rfl
    | _ =>
      rw [hphase] at hover
      cases hover
  cases hrow : p.phase.row? with
  | none => exact absurd ((hfaithful p hp).listed hover hrow) hnot
  | some row =>
    have htells := (hfaithful p hp).tells row hrow
    refine ⟨row, rfl, hended, fun h => ?_, fun h => hnot (htells.cancelled h), ?_⟩
    · rw [htells.ended.1 h] at hended
      cases hended
    · cases hfinal : row.sessionFinal with
      | none => exact absurd (htells.final hover hfinal) hnot
      | some final => rfl

/-- In an epoch that is finished every task has arrived, once. -/
theorem finished_arrived {w : World Epoch Task}
    (hfaithful : ∀ p ∈ w.processes, Faithful E w.shared p) (hkept : Kept E w)
    (hfinished : Finished w) : w.shared.arrived.Perm (w.processes.map (·.session)) := by
  refine (hkept.arrived.perm hkept.keys).trans (List.Perm.of_eq ?_)
  rw [List.map_eq_flatMap]
  refine List.flatMap_congr fun p hp => ?_
  obtain ⟨row, hrow, -⟩ := finished_rows hfaithful hfinished p hp
  exact (accounts_row (E := E) hrow).2.2

/-- **An epoch replays its workload faithfully**, in every order of its tasks' steps and with
every reply, failure, timeout and cancellation; once it is finished it lists the row of every
task, once and closed. -/
theorem epoch_replays (E : Plan) (workflows : List Workflow) (copies : Nat)
    (session : Nat → Nat → String)
    (hsessions : ((launch workflows copies session).map (·.session)).Nodup)
    {actions : List (Action Act Unit Empty)} {w : World Epoch Task}
    (hrun : Runs.run (system E).step ⟨.empty, launch workflows copies session⟩ actions = some w) :
    w.processes.map (fun p => (p.workflow, p.copy, p.session)) =
        (launch workflows copies session).map (fun p => (p.workflow, p.copy, p.session)) ∧
      (∀ p ∈ w.processes, Faithful E w.shared p) ∧
      (Finished w → w.shared.arrived.Perm (w.processes.map (·.session)) ∧
        ∀ p ∈ w.processes, ∃ row, p.phase.row? = some row ∧ p.phase.ended = true ∧
          row.status ≠ .running ∧ row.status ≠ .cancelled ∧ row.sessionFinal.isSome = true) := by
  obtain ⟨htasks, hfaithful, hkept⟩ := epoch_faithful E workflows copies session hsessions hrun
  refine ⟨htasks, hfaithful, fun hfinished => ?_⟩
  exact ⟨finished_arrived hfaithful hkept hfinished, finished_rows hfaithful hfinished⟩

end Launch

/-! ## A short epoch -/

/-- The workload of the run that reads a file and answers. -/
def readAndAnswerWorkload : Value :=
  match captureWorkload "digest" readAndAnswer.execute.2.trace with
  | .ok workload => workload
  | .error _ => .null

/-- Its workflow. -/
def readAndAnswerWorkflow : Workflow where
  id := "captured"
  arrivalMs := 0
  turns := (workflowTurns readAndAnswerWorkload).headD []
  some := by decide +kernel

/-- An epoch of it with the hint. -/
def sampleEpoch : Plan := ⟨"model", true, 120000, fun _ => "digest"⟩

/-- Two copies, step by step in turn: the first is answered in full, the second runs into its
horizon while it awaits its second reply. -/
def sampleActions : List (Action Act Unit Empty) :=
  let call : Choice := ⟨some "tool_calls", assistantMessage none (some [⟨"call", "function",
    "read_file", "\x7b\x7d"⟩])⟩
  let answer : Choice := ⟨some "stop", assistantMessage (some "Done.") none⟩
  [.own 1 .arrive, .own 0 .arrive, .own 0 .wake, .own 1 .wake,
    .own 1 (.reply call none "model" "a" .null 10), .own 0 (.reply call none "model" "b" .null 11),
    .own 1 .wake, .own 0 .wake, .own 0 (.reply answer none "model" "c" .null 20),
    .own 1 (.expire .null), .own 0 (.noticed [("status", .str "sent")] 21),
    .own 1 (.noticed [("status", .str "failed")] 22)]

def sampleSession (copy _ : Nat) : String := if copy = 0 then "replay-0" else "replay-1"

theorem sampleRun_isSome : (Runs.run (system sampleEpoch).step
    ⟨.empty, launch [readAndAnswerWorkflow] 2 sampleSession⟩ sampleActions).isSome = true := by
  decide +kernel

theorem sampleRun_finished {w : World Epoch Task} (hw : Runs.run (system sampleEpoch).step
    ⟨.empty, launch [readAndAnswerWorkflow] 2 sampleSession⟩ sampleActions = some w) :
    Finished w := by
  have hover : (Runs.run (system sampleEpoch).step
      ⟨.empty, launch [readAndAnswerWorkflow] 2 sampleSession⟩ sampleActions).all (fun w =>
        !w.shared.aborted && w.processes.all fun p => p.phase.over) = true := by decide +kernel
  rw [hw, Option.all_some, Bool.and_eq_true, Bool.not_eq_true', List.all_eq_true] at hover
  exact hover

/-- It replays what the agent sent, in both sessions. -/
theorem epoch_replays_sample : ∃ w, Runs.run (system sampleEpoch).step
    ⟨.empty, launch [readAndAnswerWorkflow] 2 sampleSession⟩ sampleActions = some w ∧
      (∀ p ∈ w.processes, Faithful sampleEpoch w.shared p) ∧ w.shared.arrived.Perm
        (w.processes.map (·.session)) := by
  obtain ⟨w, hw⟩ := Option.isSome_iff_exists.1 sampleRun_isSome
  obtain ⟨-, hfaithful, hfinished⟩ := epoch_replays sampleEpoch [readAndAnswerWorkflow] 2
    sampleSession (by decide +kernel) hw
  exact ⟨w, hw, hfaithful, (hfinished (sampleRun_finished hw)).1⟩

/-! ## Captured runs -/

section Launch

variable {copies : Nat} {session : Nat → Nat → String}

/-- **A captured run is replayed as the agent sent it**: in every epoch of its workload every
session sends the first requests of the run, the same but for the session and the hint, and all
of them when its row is completed. -/
theorem captured_epoch (run : AgentRun) (hcapture : run.settings.captureRequests = true)
    (hfresh : run.older = []) (hclock : ∀ n index, 0 ≤ run.host.toolTime n index)
    {sha256 : String} {workload : Value}
    (hworkload : captureWorkload sha256 run.execute.2.trace = .ok workload)
    (workflow : Workflow) (hworkflow : workflowTurns workload = [workflow.turns])
    (hmodel : E.model = run.modelName)
    (hsessions : ((launch [workflow] copies session).map (·.session)).Nodup)
    {actions : List (Action Act Unit Empty)} {w : World Epoch Task}
    (hrun : Runs.run (system E).step ⟨.empty, launch [workflow] copies session⟩ actions = some w) :
    ∀ p ∈ w.processes, ∃ n, ∃ final : Bool,
      (w.shared.sent.filter fun e => e.session = p.session).map (·.fields) =
          (run.execute.2.requests.take n).map (sentRequest run E.on p.session) ++
            (if final then [finalRequest run.modelName p.session] else []) ∧
        ∀ row, p.phase.row? = some row →
          n = row.calls.length ∧ (row.status = .completed → n = run.execute.2.requests.length) := by
  intro p hp
  obtain ⟨hsame, hfaithful, -⟩ := epoch_faithful E [workflow] copies session hsessions hrun
  have hflow : p.workflow = workflow := by
    have hmem : (p.workflow, p.copy, p.session) ∈ w.processes.map
        fun p => (p.workflow, p.copy, p.session) := List.mem_map_of_mem hp
    rw [hsame] at hmem
    obtain ⟨q, hq, heq⟩ := List.mem_map.1 hmem
    rw [← (Prod.mk.inj heq).1]
    exact List.mem_singleton.1 (launch_arriving hq).2.2
  obtain ⟨-, turns, hturns, hrequests, -⟩ := captured_turns hcapture hfresh hclock hworkload
  have hthese : turns = workflow.turns := by
    rw [hworkflow] at hturns
    exact (List.singleton_inj.1 hturns).symm
  have hfields := hrequests E.on p.session
  have hlength : workflow.turns.length = run.execute.2.requests.length := by
    have hlengths := congrArg List.length hfields
    rwa [List.length_map, List.length_map, hthese] at hlengths
  cases hrow : p.phase.row? with
  | none =>
    refine ⟨0, false, ?_, fun row h => (by cases h)⟩
    rw [(hfaithful p hp).wire, (accounts_none hrow).1]
    rfl
  | some row =>
    refine ⟨row.calls.length, p.phase.ended, ?_, fun row' h => ?_⟩
    · rw [(hfaithful p hp).wire, (accounts_row hrow).1, List.map_append, List.map_map, hflow,
        ← hthese, List.map_take, List.map_take, ← hfields, ← hmodel]
      refine congrArg₂ (· ++ ·) (congrArg (List.take _) rfl) ?_
      cases p.phase.ended <;> rfl
    · cases h
      refine ⟨rfl, fun hcompleted => ?_⟩
      rw [← hlength, ← hflow]
      exact (((hfaithful p hp).tells row hrow).completed.1 hcompleted).1

end Launch

theorem readAndAnswer_captured :
    captureWorkload "digest" readAndAnswer.execute.2.trace = .ok readAndAnswerWorkload := by
  have hok : (captureWorkload "digest" readAndAnswer.execute.2.trace).isOk = true := by
    decide +kernel
  unfold readAndAnswerWorkload
  cases hcapture : captureWorkload "digest" readAndAnswer.execute.2.trace with
  | error e =>
    rw [hcapture] at hok
    cases hok
  | ok workload => rfl

/-- Both sessions of the short epoch send what the agent sent. -/
theorem captured_epoch_sample : ∃ w, Runs.run (system sampleEpoch).step
    ⟨.empty, launch [readAndAnswerWorkflow] 2 sampleSession⟩ sampleActions = some w ∧
      ∀ p ∈ w.processes, ∀ row, p.phase.row? = some row → row.status = .completed →
        ((w.shared.sent.filter fun e => e.session = p.session).map (·.fields)).take 2 =
          readAndAnswer.execute.2.requests.map (sentRequest readAndAnswer true p.session) := by
  obtain ⟨w, hw⟩ := Option.isSome_iff_exists.1 sampleRun_isSome
  have hlast : (0 : Rat) ≤ 25 / 2 := by norm_num
  have hflows : workflowTurns readAndAnswerWorkload = [readAndAnswerWorkflow.turns] := by
    decide +kernel
  refine ⟨w, hw, fun p hp row hrow hcompleted => ?_⟩
  obtain ⟨n, final, hsent, hn⟩ := captured_epoch readAndAnswer rfl rfl (fun _ _ => hlast)
    readAndAnswer_captured readAndAnswerWorkflow hflows rfl (by decide +kernel) hw p hp
  have htwo : n = 2 := (hn row hrow).2 hcompleted
  have hrequests : readAndAnswer.execute.2.requests.length = 2 := rfl
  rw [hsent, htwo, List.take_of_length_le hrequests.le, List.take_append_of_le_length
    (by rw [List.length_map, hrequests]), List.take_of_length_le
      (by rw [List.length_map, hrequests])]
  rfl

end ReedCode.Replay
