import ReedCode.Replay.Faithful

/-!
# The report of an epoch

`epoch_values` of `dynamo_report.py`: what is counted of the rows of an epoch.

* `epochRows` — `result["workflows"]`: the rows in the order they arrived;
* `epochValues` — the counts and totals of the client; what is copied from the clock and from the
  metrics of the server is left out;
* `epoch_report` — of an epoch that is finished the report counts every request that was sent,
  every answer in the trace and every final notice, once.
-/

set_option autoImplicit false

namespace ReedCode.Replay

open HarborAgent Processes

/-! ## Values -/

/-- `c.get("usage")`. -/
def Call.usage (call : Call) : Option Fields :=
  match call.status with
  | .completed _ _ _ _ usage _ => usage
  | _ => none

def Call.isCompleted (call : Call) : Bool :=
  match call.status with
  | .completed _ _ _ _ _ _ => true
  | _ => false

/-- `c.get("finish_reason") == "length"`. -/
def Call.hitLimit (call : Call) : Bool :=
  match call.status with
  | .completed _ _ _ finishReason _ _ => finishReason == some "length"
  | _ => false

/-- `c.get("recorded_message_match")`. -/
def Call.recorded (call : Call) : Option Bool :=
  match call.status with
  | .completed _ _ _ _ _ recorded => recorded
  | _ => none

/-- `(c.get("stream_timing") or {}).get("first_output_ms")`: a time, or unknown. -/
def Call.firstOutputMs (call : Call) : Option Rat :=
  match call.status with
  | .failed _ (.dict timing) | .completed _ _ (.dict timing) _ _ _ =>
    number? (get timing "first_output_ms")
  | _ => none

/-- `w.get("session_final", {}).get(key)`. -/
def Row.finalField (row : Row) (key : String) : Value := get (row.sessionFinal.getD []) key

def Row.finalUsage (row : Row) : Option Fields :=
  match row.finalField "usage" with
  | .dict usage => some usage
  | _ => none

/-- `total`: the sum, unless a value is no number. -/
def total (values : List Value) : Option Value :=
  if values.all (fun value => match value with
    | .int _ | .float _ => true
    | _ => false) then
    (values.foldlM (arithmetic (· + ·) (· + ·)) (.int 0)).toOption
  else none

/-- `percentile90`: the value at the nearest rank. -/
def percentile90 (values : List Rat) : Option Rat :=
  (values.insertionSort (· ≤ ·))[(9 * values.length + 9) / 10 - 1]?

/-- `dict(Counter(values))`. -/
def counter {α : Type} [DecidableEq α] (values : List α) : List (α × Nat) :=
  values.eraseDups.map fun value => (value, values.count value)

structure EpochValues where
  workflows : Nat
  completed : Nat
  outcomes : List (RowStatus × Nat)
  meanCappedCompletionMs : Option Rat
  postToolFirstOutputP90Ms : Option Rat
  postToolTimingCoverage : Nat × Nat
  outputLimitHits : Nat
  recordedMessageMismatches : Nat
  recordedMessageUnknown : Nat
  failedFinalNotifications : Nat
  clientRequests : Nat
  sessionFinalRequests : Nat
  clientInputTokens : Option Value
  clientOutputTokens : Option Value

/-- Every call was completed and every usage is known. -/
def completeUsage (rows : List Row) : Bool :=
  (rows.flatMap (·.calls)).all Call.isCompleted &&
    ((rows.flatMap (·.calls)).map Call.usage ++ rows.map Row.finalUsage).all Option.isSome

/-- A total over the calls and the final notices. -/
def clientTokens (key : String) (rows : List Row) : Option Value :=
  if completeUsage rows then
    total (((rows.flatMap (·.calls)).map Call.usage ++ rows.map Row.finalUsage).map fun usage =>
      get (usage.getD []) key)
  else none

def epochValues (rows : List Row) : EpochValues :=
  let calls := rows.flatMap (·.calls)
  let timings := (calls.filter fun call => 1 < call.turn).map Call.firstOutputMs
  { workflows := rows.length
    completed := rows.countP (·.status = .completed)
    outcomes := counter (rows.map (·.status))
    meanCappedCompletionMs :=
      if rows.isEmpty then none
      else some ((rows.map (·.cappedCompletionMs)).sum / rows.length)
    postToolFirstOutputP90Ms :=
      if timings.all Option.isSome then percentile90 (timings.filterMap id) else none
    postToolTimingCoverage := (timings.countP Option.isSome, timings.length)
    outputLimitHits := calls.countP Call.hitLimit
    recordedMessageMismatches := calls.countP (·.recorded = some false)
    recordedMessageUnknown := calls.countP (·.recorded = none)
    failedFinalNotifications := rows.countP fun row => row.finalField "status" ≠ .str "sent"
    clientRequests := calls.length
    sessionFinalRequests := rows.length
    clientInputTokens := clientTokens "prompt_tokens" rows
    clientOutputTokens := clientTokens "completion_tokens" rows }

/-- `result["workflows"]`. -/
def epochRows (w : World Epoch Task) : List Row :=
  w.shared.arrived.filterMap fun session =>
    (w.processes.find? fun p => p.session = session).bind fun p => p.phase.row?

/-! ## The trace -/

def Line.answer? : Line → Option Call
  | .response call => some call
  | _ => none

def Line.end? : Line → Option Row
  | .workflowEnd row => some row
  | _ => none

/-- The answers in a trace. -/
def answers (trace : List Line) : List Call := trace.filterMap Line.answer?

/-- The rows at the end of the workflows in a trace. -/
def ends (trace : List Line) : List Row := trace.filterMap Line.end?

/-- The value of a number. -/
def numberOf (value : Value) : Rat := (number? value).getD 0

/-- The tokens of a usage. -/
def tokens (key : String) (usage : Option Fields) : Rat := numberOf (get (usage.getD []) key)

/-! ## Rows and trace -/

variable {E : Plan} {w : World Epoch Task}

/-- The rows of an epoch that is finished are those of its tasks. -/
theorem epochRows_perm (hkept : Kept E w)
    (harrived : w.shared.arrived.Perm (w.processes.map (·.session))) :
    (epochRows w).Perm (w.processes.filterMap fun p => p.phase.row?) := by
  refine (harrived.filterMap _).trans (List.Perm.of_eq ?_)
  rw [List.filterMap_map]
  refine List.filterMap_congr fun p hp => ?_
  cases hfind : w.processes.find? (fun q => q.session = p.session) with
  | none =>
    have hnone := List.find?_eq_none.1 hfind p hp
    simp at hnone
  | some q =>
    have hsession : q.session = p.session := by simpa using List.find?_some hfind
    have hq : q = p :=
      List.inj_on_of_nodup_map hkept.keys (List.mem_of_find?_eq_some hfind) hp hsession
    rw [Function.comp_apply, hfind, hq]
    rfl

/-- Of an epoch that is finished every request of a turn is a call of a row. -/
theorem requests_count (hkept : Kept E w) (hrows : ∀ p ∈ w.processes, ∃ row,
      p.phase.row? = some row ∧ p.phase.ended = true ∧ InOrder E p row) :
    w.shared.sent.countP (fun e => !e.final) =
        (w.processes.flatMap fun p => p.phase.row?.toList.flatMap (·.calls)).length ∧
      w.shared.sent.countP (·.final) = w.processes.length := by
  have hwire : ∀ p ∈ w.processes, (p.wire E).countP (fun e => !e.final) =
      (p.phase.row?.toList.flatMap (·.calls)).length ∧ (p.wire E).countP (·.final) = 1 := by
    intro p hp
    obtain ⟨row, hrow, hended, horder⟩ := hrows p hp
    have hnone : ((p.workflow.turns.take row.calls.length).map (p.request E)).countP (·.final) =
        0 := by
      rw [List.countP_map]
      exact List.countP_eq_zero.2 fun turn _ => Bool.false_ne_true
    have hall : ((p.workflow.turns.take row.calls.length).map (p.request E)).countP
        (fun e => !e.final) = row.calls.length := by
      rw [List.countP_map]
      refine (List.countP_eq_length.2 fun turn _ => rfl).trans ?_
      rw [List.length_take]
      exact Nat.min_eq_left horder.bound
    rw [(accounts_row hrow).1, hended, if_pos rfl, List.countP_append, List.countP_append, hnone,
      hall, hrow]
    simp [Task.notice]
  have hsent := hkept.sent.perm hkept.keys
  constructor
  · rw [hsent.countP_eq, List.countP_flatMap, List.length_flatMap]
    exact congrArg List.sum (List.map_congr_left fun p hp => (hwire p hp).1)
  · rw [hsent.countP_eq, List.countP_flatMap]
    refine (congrArg List.sum (List.map_congr_left (g := fun _ => 1) fun p hp =>
      (hwire p hp).2)).trans ?_
    simp

/-- The lines of a call have its answer, if it has one, and no row. -/
theorem lines_answer (call : Call) :
    call.lines.filterMap Line.answer? = [call].filter (·.status ≠ .running) ∧
      call.lines.filterMap Line.end? = [] := by
  unfold Call.lines
  by_cases hstatus : call.status = .running
  · rw [if_pos hstatus, List.filter_cons_of_neg (by simpa using hstatus)]
    exact ⟨rfl, rfl⟩
  · rw [if_neg hstatus, List.filter_cons_of_pos (by simpa using hstatus)]
    exact ⟨rfl, rfl⟩

/-- Of an epoch that is finished the trace has every answer and every row, once. -/
theorem trace_perm (hkept : Kept E w) (hrows : ∀ p ∈ w.processes, ∃ row,
      p.phase.row? = some row ∧ p.phase.over = true ∧ row.sessionFinal.isSome = true) :
    (answers w.shared.trace).Perm ((w.processes.flatMap fun p =>
        p.phase.row?.toList.flatMap (·.calls)).filter (·.status ≠ .running)) ∧
      (ends w.shared.trace).Perm (w.processes.filterMap fun p => p.phase.row?) := by
  have hlines : ∀ p ∈ w.processes,
      p.lines.filterMap Line.answer? =
          (p.phase.row?.toList.flatMap (·.calls)).filter (·.status ≠ .running) ∧
        p.lines.filterMap Line.end? = p.phase.row?.toList := by
    intro p hp
    obtain ⟨row, hrow, hover, hfinal⟩ := hrows p hp
    have hcalls : (row.calls.flatMap Call.lines).filterMap Line.answer? =
        row.calls.filter (·.status ≠ .running) := by
      rw [List.filterMap_flatMap, List.flatMap_congr fun call _ => (lines_answer call).1,
        ← List.filter_flatMap, List.flatMap_singleton']
    have hends : (row.calls.flatMap Call.lines).filterMap Line.end? = [] := by
      rw [List.filterMap_flatMap, List.flatMap_congr fun call _ => (lines_answer call).2]
      simp
    rw [(accounts_row (E := E) hrow).2.1, hover, hfinal, hrow, List.filterMap_append,
      List.filterMap_append, hcalls, hends]
    exact ⟨by simp [Line.answer?], by simp [Line.end?]⟩
  have htrace := hkept.trace.perm hkept.keys
  constructor
  · refine (htrace.filterMap _).trans (List.Perm.of_eq ?_)
    rw [List.filterMap_flatMap, List.filter_flatMap]
    exact List.flatMap_congr fun p hp => (hlines p hp).1
  · refine (htrace.filterMap _).trans (List.Perm.of_eq ?_)
    rw [List.filterMap_flatMap, List.filterMap_eq_flatMap_toList]
    exact List.flatMap_congr fun p hp => (hlines p hp).2

/-! ## Counts and totals -/

/-- The counts of `counter` are all of its values. -/
theorem counter_sum {α : Type} [DecidableEq α] :
    ∀ values : List α, ((counter values).map Prod.snd).sum = values.length
  | [] => rfl
  | a :: values => by
    have hrest := counter_sum (values.filter fun b => !b == a)
    have hcounts : (values.filter fun b => !b == a).eraseDups.map (fun b => (a :: values).count b) =
        (values.filter fun b => !b == a).eraseDups.map fun b =>
          (values.filter fun b => !b == a).count b := by
      refine List.map_congr_left fun b hb => ?_
      have hkept := (List.mem_filter.1 (List.mem_eraseDups.1 hb)).2
      have hne : a ≠ b := fun h => by simp [h] at hkept
      rw [List.count_cons_of_ne hne, List.count_filter (p := fun b => !b == a) hkept]
    have hsplit : values.length = values.count a + (values.filter fun b => !b == a).length := by
      rw [List.count, List.countP_eq_length_filter]
      exact (List.filter_append_perm (· == a) values).symm.length_eq.trans List.length_append
    have hunfold : ∀ l : List α, (counter l).map Prod.snd = l.eraseDups.map fun b => l.count b :=
      fun l => List.map_map
    rw [hunfold] at hrest ⊢
    rw [List.eraseDups_cons, List.map_cons, List.sum_cons, hcounts, hrest, List.length_cons,
      List.count_cons_self, hsplit]
    omega
termination_by values => values.length
decreasing_by exact Nat.lt_succ_of_le (List.length_filter_le _ _)

theorem counter_mem {α : Type} [DecidableEq α] {values : List α} {o : α × Nat}
    (h : o ∈ counter values) : o.1 ∈ values := by
  obtain ⟨value, hvalue, rfl⟩ := List.mem_map.1 h
  exact List.mem_eraseDups.1 hvalue

theorem number_of_integer {a : Value} {n : Int} {p : Rat} (hn : integer? a = some n)
    (hp : number? a = some p) : p = n := by
  cases a with
  | bool b =>
    cases hn
    cases hp
    rfl
  | int m =>
    cases hn
    cases hp
    rfl
  | _ => cases hn

theorem arithmetic_number {a b c : Value} {p q : Rat} (ha : number? a = some p)
    (hb : number? b = some q) (h : arithmetic (· + ·) (· + ·) a b = .ok c) :
    number? c = some (p + q) := by
  unfold arithmetic at h
  split at h
  · rename_i m n hm hn
    cases h
    rw [number_of_integer hm ha, number_of_integer hn hb]
    exact congrArg some (Int.cast_add m n)
  · rw [ha, hb] at h
    cases h
    rfl

theorem foldlM_number : ∀ {values : List Value} {start t : Value} {q : Rat},
    number? start = some q → (∀ value ∈ values, ∃ r, number? value = some r) →
      values.foldlM (arithmetic (· + ·) (· + ·)) start = .ok t →
        number? t = some (q + (values.map numberOf).sum)
  | [], start, t, q, hstart, _, h => by
    cases h
    simp [hstart]
  | value :: values, start, t, q, hstart, hvalues, h => by
    obtain ⟨r, hr⟩ := hvalues value List.mem_cons_self
    rw [List.foldlM_cons] at h
    obtain ⟨next, hnext, hrest⟩ := Except.bind_eq_ok_iff.1 h
    have hsum := foldlM_number (arithmetic_number hstart hr hnext)
      (fun v hv => hvalues v (List.mem_cons_of_mem _ hv)) hrest
    rw [hsum, List.map_cons, List.sum_cons, add_assoc, numberOf, hr, Option.getD_some]

theorem total_number {values : List Value} {t : Value} (h : total values = some t) :
    number? t = some (values.map numberOf).sum := by
  unfold total at h
  split at h
  · rename_i hall
    have hnumeric : ∀ value ∈ values, ∃ r, number? value = some r := by
      intro value hvalue
      have hnumber := List.all_eq_true.1 hall value hvalue
      cases value with
      | int n => exact ⟨n, rfl⟩
      | float q => exact ⟨q, rfl⟩
      | _ => cases hnumber
    cases hsum : values.foldlM (arithmetic (· + ·) (· + ·)) (.int 0) with
    | error e =>
      rw [hsum] at h
      cases h
    | ok sum =>
      rw [hsum] at h
      cases h
      rw [foldlM_number (q := 0) rfl hnumeric hsum, zero_add]
  · cases h

/-! ## The report -/

instance (row : Row) (p : Task) : Decidable (row.Complete p) :=
  inferInstanceAs (Decidable (_ ∧ _))

/-- A total of an epoch is known only when every request of a turn was answered; then it is the
sum over all answers and all final notices of the trace. -/
def TokensOf (key : String) (value : Option Value) (w : World Epoch Task) : Prop :=
  ∀ t, value = some t →
    (answers w.shared.trace).length = w.shared.sent.countP (fun e => !e.final) ∧
      number? t = some (((answers w.shared.trace).map fun call => tokens key call.usage).sum +
        ((ends w.shared.trace).map fun row => tokens key row.finalUsage).sum)

/-- **What the report of an epoch counts.** -/
structure Reported (values : EpochValues) (w : World Epoch Task) : Prop where
  workflows : values.workflows = w.processes.length
  /-- Those whose turns were all answered and passed. -/
  completed : values.completed =
    w.processes.countP fun p => p.phase.row?.any fun row => row.Complete p
  outcomes : (values.outcomes.map Prod.snd).sum = w.processes.length ∧
    ∀ o ∈ values.outcomes, o.1 ≠ .running ∧ o.1 ≠ .cancelled
  requests : values.clientRequests = w.shared.sent.countP fun e => !e.final
  finals : values.sessionFinalRequests = w.shared.sent.countP (·.final)
  limits : values.outputLimitHits = (answers w.shared.trace).countP Call.hitLimit
  mismatches : values.recordedMessageMismatches =
    (answers w.shared.trace).countP (·.recorded = some false)
  failed : values.failedFinalNotifications =
    (ends w.shared.trace).countP fun row => row.finalField "status" ≠ .str "sent"
  inputTokens : TokensOf "prompt_tokens" values.clientInputTokens w
  outputTokens : TokensOf "completion_tokens" values.clientOutputTokens w

/-- A total over calls that are all completed, and over all rows. -/
theorem clientTokens_sum {key : String} {rows : List Row} {t : Value}
    (h : clientTokens key rows = some t) :
    (∀ call ∈ rows.flatMap (·.calls), call.status ≠ .running) ∧
      number? t = some (((rows.flatMap (·.calls)).map fun call => tokens key call.usage).sum +
        (rows.map fun row => tokens key row.finalUsage).sum) := by
  unfold clientTokens at h
  split at h
  · rename_i hcomplete
    have hcalls := (Bool.and_eq_true_iff.1 hcomplete).1
    refine ⟨fun call hcall hrunning => ?_, ?_⟩
    · have hcompleted := List.all_eq_true.1 hcalls call hcall
      rw [Call.isCompleted, hrunning] at hcompleted
      cases hcompleted
    · rw [total_number h, List.map_append, List.map_append, List.sum_append, List.map_map,
        List.map_map, List.map_map, List.map_map]
      rfl
  · cases h

/-- What counts only calls that were answered is counted of the trace. -/
theorem countP_answers {trace : List Line} {calls : List Call}
    (hperm : (answers trace).Perm (calls.filter (·.status ≠ .running))) {test : Call → Bool}
    (htest : ∀ call, call.status = .running → test call = false) :
    calls.countP test = (answers trace).countP test := by
  rw [hperm.countP_eq, List.countP_filter]
  refine List.countP_congr fun call _ => ?_
  by_cases hrunning : call.status = .running
  · rw [htest call hrunning, Bool.false_and]
  · simp [hrunning]

section Launch

variable {workflows : List Workflow} {copies : Nat} {session : Nat → Nat → String}

/-- **The report of an epoch that is finished counts what happened**: every request that went
out, every answer and every final notice of the trace, once, in whatever order they came. -/
theorem epoch_report (E : Plan) (workflows : List Workflow) (copies : Nat)
    (session : Nat → Nat → String)
    (hsessions : ((launch workflows copies session).map (·.session)).Nodup)
    {actions : List (Action Act Unit Empty)} {w : World Epoch Task}
    (hrun : Runs.run (system E).step ⟨.empty, launch workflows copies session⟩ actions = some w)
    (hfinished : Finished w) :
    w.processes.length = copies * workflows.length ∧ Reported (epochValues (epochRows w)) w := by
  obtain ⟨htasks, hfaithful, hkept⟩ := epoch_faithful E workflows copies session hsessions hrun
  have hrows := finished_rows hfaithful hfinished
  have hclosed : ∀ p ∈ w.processes, ∃ row, p.phase.row? = some row ∧ Tells E p row ∧
      p.phase.ended = true ∧ p.phase.over = true ∧ row.sessionFinal.isSome = true := by
    intro p hp
    obtain ⟨row, hrow, hended, -, -, hfinal⟩ := hrows p hp
    exact ⟨row, hrow, (hfaithful p hp).tells row hrow, hended, hfinished.2 p hp, hfinal⟩
  have hperm := epochRows_perm hkept (finished_arrived hfaithful hkept hfinished)
  have hcalls : ((epochRows w).flatMap (·.calls)).Perm
      (w.processes.flatMap fun p => p.phase.row?.toList.flatMap (·.calls)) := by
    refine (hperm.flatMap_right _).trans (List.Perm.of_eq ?_)
    rw [List.filterMap_eq_flatMap_toList, List.flatMap_assoc]
  have hlength : (epochRows w).length = w.processes.length := by
    rw [hperm.length_eq, List.filterMap_length_eq_length]
    intro p hp
    obtain ⟨row, hrow, -⟩ := hclosed p hp
    rw [hrow]
    rfl
  have hcompleted : (epochRows w).countP (·.status = .completed) =
      w.processes.countP fun p => p.phase.row?.any fun row => row.Complete p := by
    rw [hperm.countP_eq, List.countP_filterMap]
    refine List.countP_congr fun p hp => ?_
    obtain ⟨row, hrow, htells, -⟩ := hclosed p hp
    rw [hrow]
    simpa using htells.completed
  have houtcomes : ∀ o ∈ counter ((epochRows w).map (·.status)),
      o.1 ≠ .running ∧ o.1 ≠ .cancelled := by
    intro o ho
    obtain ⟨row, hrow, hstatus⟩ := List.mem_map.1 (counter_mem ho)
    obtain ⟨p, hp, hprow⟩ := List.mem_filterMap.1 (hperm.mem_iff.1 hrow)
    obtain ⟨row', hrow', -, hrunning, hcancelled, -⟩ := hrows p hp
    cases hprow.symm.trans hrow'
    exact hstatus ▸ ⟨hrunning, hcancelled⟩
  obtain ⟨hrequests, hfinals⟩ := requests_count hkept fun p hp => by
    obtain ⟨row, hrow, htells, hended, -⟩ := hclosed p hp
    exact ⟨row, hrow, hended, htells.order⟩
  obtain ⟨hanswers, hends⟩ := trace_perm hkept fun p hp => by
    obtain ⟨row, hrow, -, -, hover, hfinal⟩ := hclosed p hp
    exact ⟨row, hrow, hover, hfinal⟩
  have hanswers' := hanswers.trans (hcalls.filter _).symm
  have hends' := hends.trans hperm.symm
  have htokens : ∀ key, TokensOf key (clientTokens key (epochRows w)) w := by
    intro key t ht
    obtain ⟨hall, hsum⟩ := clientTokens_sum ht
    have hsame : (answers w.shared.trace).Perm ((epochRows w).flatMap (·.calls)) :=
      hanswers'.trans (List.Perm.of_eq (List.filter_eq_self.2 fun call hcall => by
        simpa using hall call hcall))
    refine ⟨hsame.length_eq.trans (hcalls.length_eq.trans hrequests.symm), ?_⟩
    rw [hsum, (hsame.map _).sum_eq, (hends'.map _).sum_eq]
  have hcount : w.processes.length = copies * workflows.length := by
    have hlengths := congrArg List.length htasks
    rw [List.length_map, List.length_map] at hlengths
    rw [hlengths, launch, List.length_flatMap]
    simp
  refine ⟨hcount, hlength, hcompleted, ⟨?_, houtcomes⟩, ?_, ?_, ?_, ?_, ?_, htokens _, htokens _⟩
  · rw [← hlength, ← List.length_map Row.status]
    exact counter_sum _
  · exact hcalls.length_eq.trans hrequests.symm
  · exact hlength.trans hfinals.symm
  · exact countP_answers hanswers' fun call h => by rw [Call.hitLimit, h]
  · exact countP_answers hanswers' fun call h => by rw [Call.recorded, h]; rfl
  · exact (hends'.countP_eq _).symm

end Launch

/-- Both sessions of the short epoch are counted, one of them completed. -/
theorem epoch_report_sample : ∃ w, Runs.run (system sampleEpoch).step
    ⟨.empty, launch [readAndAnswerWorkflow] 2 sampleSession⟩ sampleActions = some w ∧
      w.processes.length = 2 * 1 ∧ Reported (epochValues (epochRows w)) w := by
  obtain ⟨w, hw⟩ := Option.isSome_iff_exists.1 sampleRun_isSome
  exact ⟨w, hw, epoch_report sampleEpoch [readAndAnswerWorkflow] 2 sampleSession
    (by decide +kernel) hw (sampleRun_finished hw)⟩

end ReedCode.Replay
