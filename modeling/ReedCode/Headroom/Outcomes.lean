import ReedCode.Headroom.Integrity
import ReedCode.Headroom.Lives

/-!
# Outcomes

The rows of the result of a run, over exact arithmetic.

* `Simulation.rows` — the rows as `run` makes them, with the fallback for a workflow that still
  runs.
* `Outcome` — what is claimed of a row.
* `outcomes` — the rows of every run that has come to its end.
-/

set_option autoImplicit false

universe u

namespace ReedCode.Headroom

/-! ## The result -/

structure ResultRow (T : Type u) where
  workflow : String
  status : Status
  cappedCompletionMs : T
  turns : List (TurnRow T)

section Rows

variable {T : Type u} [Zero T] {κ : Type u}

def Simulation.rows (S : Setup T κ) (s : Simulation T κ) : List (ResultRow T) :=
  s.states.entries.map fun entry => {
    workflow := entry.1
    status := if entry.2.status = .running then .timeout else entry.2.status
    cappedCompletionMs := entry.2.completionMs.getD S.workload.horizonMs
    turns := entry.2.turns }

variable [LinearOrder T] [Add T]

/-- What is claimed of the row of a workflow. -/
structure Outcome (S : Setup T κ) (s : Simulation T κ) (workflow : Workflow T) (row : ResultRow T) :
    Prop where
  /-- The fallback is not used. -/
  settled : ∃ state, s.states.get? workflow.id = some state ∧ state.status ≠ .running ∧
    row.status = state.status
  completed : row.status = .completed ↔
    FinishedInTime (S.workload.due workflow) workflow.turns.length (news workflow.id s.trace)
  capped : row.cappedCompletionMs ≤ S.workload.horizonMs
  turns : row.turns.map (·.turn) = List.range row.turns.length
  times : ∀ turn ∈ row.turns, turn.readyMs ≤ turn.completedMs
  chained : row.turns.Pairwise fun a b => a.completedMs ≤ b.readyMs

end Rows

/-! ## The workflows of a run -/

section Keys

variable {T : Type u} [LinearOrder T] [Zero T] [Add T] [Sub T] [Mul T] [NatCast T] {κ : Type u}
  [DecidableEq κ] {S : Setup T κ} {s : Simulation T κ}

omit [LinearOrder T] [Add T] [Sub T] [Mul T] [NatCast T] [DecidableEq κ] in
/-- Writing the state of a workflow that has one. -/
theorem keys_setState {ident : String} {old : WorkflowState T}
    (hold : s.states.get? ident = some old) (new : WorkflowState T) :
    (s.states.insert ident new).keys = s.states.keys := by
  rw [FinMap.keys_insert, if_pos (FinMap.mem_keys_of_get? hold)]

theorem Handled.keys {action : Action T κ} {s' : Simulation T κ} (h : Handled S s action s') :
    s'.states.keys = s.states.keys := by
  cases h with
  | arrival hturned => rw [hturned.states]
  | deadline hstate _ =>
    rw [deactivate_eq]
    exact keys_setState hstate _
  | cancelled _ hstate _ _ => exact keys_setState hstate _
  | revised _ _ _ _ =>
    rw [Simulation.schedule_eq]
    rfl
  | requestDead hstate _ => exact keys_setState hstate _
  | @requestLast workflow index keys ready cached state hstate _ _ =>
    have hrecorded : (recorded s state workflow index keys ready cached).states.get? workflow =
        some (state.record s.now index ready cached) := FinMap.get?_insert_self ..
    exact (keys_setState hrecorded _).trans (keys_setState hstate _)
  | requestNext hstate _ _ hturned =>
    rw [hturned.states]
    exact keys_setState hstate _
  | _ => rfl

theorem Dispatched.states {s' : Simulation T κ} (h : Dispatched S s s') : s'.states = s.states := by
  cases h with
  | busy _ => rfl
  | request _ _ _ _ _ _ _ _ _ => rfl
  | idle _ _ _ => rw [searched_eq]
  | preparation _ _ _ _ _ =>
    rw [searched_eq]
    rfl

/-- The rows are those of the workflows of the workload, in their order. -/
theorem Reachable.keys (hw : S.workload.Valid) {c : Config T κ} (hc : Reachable S c) :
    c.sim.states.keys = S.workload.workflows.map (·.id) := by
  refine Runs.Reachable.invariant (P := fun c => c.sim.states.keys =
    S.workload.workflows.map (·.id)) ?_ (fun c c' h hnext => ?_) hc
  · refine start_induction (P := fun entered s => s.states.keys = entered.map (·.id)) hw rfl ?_
    intro entered workflow s h _ hid
    refine (FinMap.keys_insert ..).trans ?_
    rw [h, if_neg hid, List.map_append, List.map_singleton]
  · cases next_stepped hnext with
    | handle _ _ hhandled => exact hhandled.keys.trans h
    | dispatch _ hdispatched => rw [hdispatched.states, h]
    | _ => exact h

/-- At the end of a run every event that is left lies behind it. -/
theorem Reachable.closed [Clock T] (hw : S.workload.Valid) {c : Config T κ} (hc : Reachable S c) :
    c.phase = .done → ∀ event ∈ c.sim.events, observationEnd S.workload < event.time := by
  have h : OrderlyAt S c ∧ (c.phase = .done →
      ∀ event ∈ c.sim.events, observationEnd S.workload < event.time) := by
    refine Runs.Reachable.invariant (P := fun c => OrderlyAt S c ∧ (c.phase = .done →
      ∀ event ∈ c.sim.events, observationEnd S.workload < event.time))
      ⟨orderly_start hw, fun hphase => by cases hphase⟩ (fun c c' h hnext => ?_) hc
    have hstep := next_stepped hnext
    refine ⟨h.1.stepped hw hstep, ?_⟩
    cases hstep with
    | @leave s hlater =>
      intro _ event hevent
      have hsorted := h.1.sim.sorted
      change event ∈ s.events at hevent
      dsimp only at hsorted
      cases hevents : s.events with
      | nil =>
        rw [hevents] at hevent
        cases hevent
      | cons first events =>
        rw [hevents] at hlater hsorted hevent
        have hfirst := hlater first rfl
        rcases List.mem_cons.1 hevent with rfl | hevent
        · exact hfirst
        · exact hfirst.trans_le (Event.time_le_of_before
            ((List.pairwise_cons.1 hsorted).1 event hevent))
    | done => exact h.2
    | _ => exact fun hphase => by cases hphase
  exact h.2

end Keys

/-! ## Exact arithmetic -/

variable {T : Type u} [CommRing T] [LinearOrder T] [IsStrictOrderedRing T] {κ : Type u}
  [DecidableEq κ] {S : Setup T κ}

omit [DecidableEq κ] in
/-- No deadline lies behind the end of the observation. -/
theorem due_le_observationEnd {workflow : Workflow T} (hworkflow : workflow ∈ S.workload.workflows) :
    S.workload.due workflow ≤ observationEnd S.workload := by
  have harrival : workflow.arrivalMs ∈ S.workload.workflows.map (·.arrivalMs) :=
    List.mem_map_of_mem hworkflow
  have hle : workflow.arrivalMs ≤ (S.workload.workflows.map (·.arrivalMs)).max?.getD 0 := by
    cases hmax : (S.workload.workflows.map (·.arrivalMs)).max? with
    | none =>
      rw [List.max?_eq_none_iff.1 hmax] at harrival
      cases harrival
    | some latest => exact (List.max?_le_iff hmax).1 (le_refl latest) _ harrival
  show workflow.arrivalMs + S.workload.horizonMs ≤ _ + S.workload.horizonMs
  gcongr

/-- At the end of a run no workflow runs. -/
theorem not_running (hw : S.workload.Valid) {c : Config T κ} (hc : Reachable S c)
    (hdone : c.phase = .done) {workflow : Workflow T} (hworkflow : workflow ∈ S.workload.workflows)
    {state : WorkflowState T} (h : Judged (S.workload.due workflow) (c.sim.life workflow.id state)) :
    state.status ≠ .running := by
  intro hrunning
  obtain ⟨hdue, -, -⟩ := h.running hrunning
  obtain ⟨event, hevent, hdeadline⟩ := List.mem_filterMap.1 hdue
  have hlater := Reachable.closed hw hc hdone event hevent
  have htime : event.time = S.workload.due workflow := by
    unfold Event.deadline? at hdeadline
    split at hdeadline
    · split at hdeadline
      · exact Option.some.inj hdeadline
      · cases hdeadline
    · cases hdeadline
  rw [htime] at hlater
  exact absurd (due_le_observationEnd hworkflow) (not_le.2 hlater)

/-- The row of one workflow. -/
theorem outcome (hw : S.workload.Valid) {c : Config T κ} (hc : Reachable S c)
    (hdone : c.phase = .done) {workflow : Workflow T} (hworkflow : workflow ∈ S.workload.workflows)
    {state : WorkflowState T} (hstate : c.sim.states.get? workflow.id = some state) :
    Outcome S c.sim workflow {
      workflow := workflow.id
      status := if state.status = .running then .timeout else state.status
      cappedCompletionMs := state.completionMs.getD S.workload.horizonMs
      turns := state.turns } := by
  obtain ⟨state₁, hstate₁, hrecorded, hjudged⟩ := Reachable.chronicled hw hc workflow hworkflow
  cases hstate.symm.trans hstate₁
  obtain ⟨state₂, hstate₂, hsame⟩ := (Reachable.orderly hw hc).sim.wellFormed.states workflow hworkflow
  cases hstate.symm.trans hstate₂
  have hsettled := not_running hw hc hdone hworkflow hjudged
  refine ⟨⟨state, hstate, hsettled, if_neg hsettled⟩, ?_, ?_, hrecorded.rows,
    fun turn hturn => (hrecorded.times turn hturn).1, hrecorded.chained⟩
  · rw [if_neg hsettled, ← hsame]
    exact hsame.symm ▸ hjudged.judged
  · cases hcompletion : state.completionMs with
    | none => exact le_refl _
    | some time =>
      obtain ⟨finish, hfinish, rfl⟩ := hjudged.completion time hcompletion
      show finish - state.workflow.arrivalMs ≤ S.workload.horizonMs
      rw [hsame, sub_le_iff_le_add']
      exact hfinish

/-- **Workflow outcomes are exact**: at the end of a run the result has one row for each workflow
of the workload, in order, and every row is as claimed. -/
theorem outcomes (hw : validate S.workload = .ok ()) {c : Config T κ} (hc : Reachable S c)
    (hdone : c.phase = .done) :
    List.Forall₂ (fun workflow row => row.workflow = workflow.id ∧ Outcome S c.sim workflow row)
      S.workload.workflows (c.sim.rows S) := by
  have hvalid := validate_eq_ok.1 hw
  have hkeys : List.Forall₂ (fun workflow entry => workflow.id = entry.1) S.workload.workflows
      c.sim.states.entries := by
    refine List.forall₂_map_left_iff.1 (List.forall₂_map_right_iff.1 ?_)
    rw [List.forall₂_eq_eq_eq]
    exact (Reachable.keys hvalid hc).symm
  rw [Simulation.rows, List.forall₂_map_right_iff, List.forall₂_iff_zip]
  obtain ⟨hlength, hzip⟩ := List.forall₂_iff_zip.1 hkeys
  refine ⟨hlength, fun {workflow entry} hmem => ?_⟩
  obtain ⟨hworkflow, hentry⟩ := List.of_mem_zip hmem
  obtain ⟨ident, state⟩ := entry
  have hid := hzip hmem
  dsimp only at hid
  subst hid
  exact ⟨rfl, outcome hvalid hc hdone hworkflow (FinMap.mem_entries.1 hentry)⟩

/-! ## A small workload -/

/-- One workflow is cancelled, one finishes at its deadline and one never starts. -/
def deadlineWorkload : Workload Int where
  schemaVersion := 1
  kind := "synthetic_cost_model"
  cacheBlocks := 2
  speculativeBlockBudget := 1
  speculativeChunkBlocks := 1
  prefillBlockMs := 2
  horizonMs := 12
  workflows := [
    { id := "quit", turns := [
      { promptBlocks := ["q"], generatedBlocks := [], decodeMs := 1 },
      { promptBlocks := ["q", "r"], generatedBlocks := [], decodeMs := 1, waitMs := 5,
        updates := [⟨2, .cancel⟩] }] },
    { id := "done", turns := [{ promptBlocks := ["d"], generatedBlocks := [], decodeMs := 7 }] },
    { id := "late", turns := [{ promptBlocks := ["l"], generatedBlocks := [], decodeMs := 1 }] }]

def deadlineSetup : Setup Int (List String) := ⟨pathDigest, deadlineWorkload, .off⟩

theorem outcomes_deadline : ∃ c, Runs.iterate (next deadlineSetup) 24 (start deadlineSetup) = some c ∧
    (c.sim.rows deadlineSetup).map (fun row => (row.status, row.cappedCompletionMs)) =
      [(.cancelled, 12), (.completed, 12), (.timeout, 12)] ∧
    List.Forall₂ (fun workflow row => row.workflow = workflow.id ∧
      Outcome deadlineSetup c.sim workflow row) deadlineWorkload.workflows
        (c.sim.rows deadlineSetup) := by
  obtain ⟨c, hc⟩ := Option.isSome_iff_exists.1
    (show (Runs.iterate (next deadlineSetup) 24 (start deadlineSetup)).isSome by decide +kernel)
  have hend : (Runs.iterate (next deadlineSetup) 24 (start deadlineSetup)).any (fun c =>
      (match c.phase with | .done => true | _ => false) &&
        decide ((c.sim.rows deadlineSetup).map (fun row => (row.status, row.cappedCompletionMs)) =
          [(.cancelled, 12), (.completed, 12), (.timeout, 12)])) = true := by
    decide +kernel
  rw [hc, Option.any_some, Bool.and_eq_true, decide_eq_true_eq] at hend
  obtain ⟨hphase, hrows⟩ := hend
  have hdone : c.phase = .done := by
    split at hphase
    · assumption
    · cases hphase
  exact ⟨c, hc, hrows, outcomes (S := deadlineSetup) (by decide) (Runs.Reachable.iterate .start hc)
    hdone⟩

end ReedCode.Headroom
