import ReedCode.HarborAgent.Cleanup

/-!
# Trace and summary

The report of a run's trace against the summary of the run.

* `knownSum_usage` — the report's sum of a usage field is the total that the agent kept;
* `analyzeTrace_books` — the report of a trace with its books;
* `trace_agrees_iff` — on a run with a fresh trace that raises nothing they agree, unless the
  run ended on a blank reply, which the report takes for an incomplete trace.
-/

set_option autoImplicit false

namespace ReedCode.HarborAgent

open AgentRun

/-! ## Sums -/

theorem foldl_addUsage_none : ∀ xs : List (Option Int), xs.foldl addUsage none = none
  | [] => rfl
  | _ :: xs => foldl_addUsage_none xs

theorem foldl_addUsage_of_mem : ∀ {xs : List (Option Int)} {total : Option Int},
    none ∈ xs → xs.foldl addUsage total = none
  | [], _, h => by cases h
  | x :: xs, total, h => by
    rw [List.foldl_cons]
    rcases List.mem_cons.1 h with rfl | h
    · cases total <;> exact foldl_addUsage_none xs
    · exact foldl_addUsage_of_mem h

/-- A sum of known values, from what is added up so far. -/
theorem foldlM_known : ∀ (xs : List (Option Int)) (total : Int), none ∉ xs →
    (xs.map (optionValue .int)).foldlM (arithmetic (· + ·) (· + ·)) (.int total) =
      .ok (optionValue .int (xs.foldl addUsage (some total)))
  | [], _, _ => rfl
  | none :: _, _, h => absurd List.mem_cons_self h
  | some n :: xs, total, h =>
    foldlM_known xs (total + n) fun hx => h (List.mem_cons_of_mem _ hx)

/-- **The report's sum is the agent's total**, unknown exactly when that is. -/
theorem knownSum_usage {xs : List (Option Int)} (h : xs ≠ []) :
    knownSum (xs.map (optionValue .int)) = .ok (optionValue .int (xs.foldl addUsage (some 0))) := by
  unfold knownSum
  by_cases hnone : none ∈ xs
  · have hnull : (xs.map (optionValue .int)).any Value.isNull = true :=
      List.any_eq_true.2 ⟨.null, List.mem_map.2 ⟨none, hnone, rfl⟩, rfl⟩
    rw [hnull, Bool.or_true, if_pos rfl, foldl_addUsage_of_mem hnone]
    rfl
  · have hknown : (xs.map (optionValue .int)).any Value.isNull = false := by
      refine List.any_eq_false.2 fun value hvalue => ?_
      obtain ⟨x, hx, rfl⟩ := List.mem_map.1 hvalue
      cases x with
      | none => exact absurd hx hnone
      | some n => exact Bool.false_ne_true
    have hempty : (xs.map (optionValue .int)).isEmpty = false := by
      cases xs with
      | nil => exact absurd rfl h
      | cons x xs => rfl
    rw [hknown, hempty, Bool.or_false, if_neg Bool.false_ne_true]
    exact foldlM_known xs 0 hnone

/-- A value that can be added up. -/
def Numeric (value : Value) : Prop := ∃ q, number? value = some q

theorem numeric_arithmetic (onInt : Int → Int → Int) (onRat : Rat → Rat → Rat) {a b : Value}
    (ha : Numeric a) (hb : Numeric b) :
    ∃ value, arithmetic onInt onRat a b = .ok value ∧ Numeric value := by
  obtain ⟨p, hp⟩ := ha
  obtain ⟨q, hq⟩ := hb
  unfold arithmetic
  split
  · exact ⟨_, rfl, _, rfl⟩
  · rw [hp, hq]
    exact ⟨_, rfl, _, rfl⟩

theorem foldlM_numeric : ∀ {values : List Value} {total : Value}, Numeric total →
    (∀ value ∈ values, Numeric value) →
      ∃ sum, values.foldlM (arithmetic (· + ·) (· + ·)) total = .ok sum ∧ Numeric sum
  | [], total, ht, _ => ⟨total, rfl, ht⟩
  | value :: values, total, ht, h => by
    obtain ⟨next, hnext, hn⟩ := numeric_arithmetic (· + ·) (· + ·) ht
      (h value List.mem_cons_self)
    rw [List.foldlM_cons, hnext]
    exact foldlM_numeric hn fun v hv => h v (List.mem_cons_of_mem _ hv)

theorem knownSum_isOk {values : List Value}
    (h : ∀ value ∈ values, value = .null ∨ Numeric value) : ∃ sum, knownSum values = .ok sum := by
  unfold knownSum
  split
  · exact ⟨.null, rfl⟩
  · rename_i hknown
    rw [Bool.or_eq_true, not_or] at hknown
    obtain ⟨sum, hsum, -⟩ := foldlM_numeric (⟨0, rfl⟩ : Numeric (.int 0)) fun value hvalue =>
      (h value hvalue).resolve_left fun hnull =>
        hknown.2 (List.any_eq_true.2 ⟨value, hvalue, hnull ▸ rfl⟩)
    exact ⟨sum, hsum⟩

theorem knownSumOrZero_isOk {values : List Value} (h : ∀ value ∈ values, Numeric value) :
    ∃ sum, knownSumOrZero values = .ok sum := by
  unfold knownSumOrZero
  split
  · exact ⟨.int 0, rfl⟩
  · exact knownSum_isOk fun value hvalue => Or.inr (h value hvalue)

/-! ## Server windows -/

theorem numeric_of_finiteNonnegative {value : Value} (h : finiteNonnegative value = true) :
    Numeric value := by
  cases value with
  | int n => exact ⟨n, rfl⟩
  | float q => exact ⟨q, rfl⟩
  | _ => cases h

theorem getDict_of_validItem {items : Fields} (h : ∀ item ∈ items, validItem item.2 = true)
    (key : String) : ∃ fields, getDict items key = .ok fields := by
  unfold getDict getOr
  cases hlookup : items.lookup key with
  | none => exact ⟨[], rfl⟩
  | some value =>
    obtain ⟨before, after, heq, -⟩ := List.lookup_eq_some_iff.1 hlookup
    have hvalid := h (key, value) (heq ▸ List.mem_append_right _ List.mem_cons_self)
    cases value with
    | dict fields => exact ⟨fields, rfl⟩
    | _ => cases hvalid

/-- What is used of a window that is valid. -/
theorem validServerWindow_parts {window : Fields} (h : validServerWindow (.dict window) = true) :
    [Value.str "ok", .str "partial"].contains (get window "status") = true ∧
      ∃ histograms, getDict window "histograms" = .ok histograms ∧
        ∀ item ∈ histograms, validItem item.2 = true := by
  unfold validServerWindow at h
  simp only [Bool.and_eq_true] at h
  obtain ⟨⟨⟨⟨⟨⟨hstatus, -⟩, -⟩, -⟩, -⟩, -⟩, hitems⟩ := h
  refine ⟨hstatus, ?_⟩
  split at hitems
  · rename_i counters histograms _ hhistograms
    refine ⟨histograms, by rw [getDict, hhistograms], fun item hitem => ?_⟩
    rw [Bool.and_eq_true, List.all_eq_true] at hitems
    exact hitems.1 item (List.mem_append_right _ hitem)
  · cases hitems

theorem phaseSeconds_isOk (phase : String) {window : Fields}
    (h : validServerWindow (.dict window) = true) :
    ∃ value, phaseSeconds phase (.dict window) = .ok value ∧ (value = .null ∨ Numeric value) := by
  obtain ⟨-, histograms, hhistograms, hitems⟩ := validServerWindow_parts h
  obtain ⟨histogram, hhistogram⟩ := getDict_of_validItem hitems phase
  unfold phaseSeconds
  rw [windowFields, hhistograms]
  simp only [bind, Except.bind, hhistogram]
  split
  · rename_i hvalid
    simp only [Bool.and_eq_true] at hvalid
    exact ⟨_, rfl, Or.inr (numeric_of_finiteNonnegative hvalid.2)⟩
  · exact ⟨.null, rfl, Or.inl rfl⟩

theorem cacheFraction_isOk {metrics : ServerMetrics}
    (h : validServerWindow (.dict metrics.fields) = true) :
    ∃ value, cacheFraction (.dict metrics.fields) = .ok value := by
  have hstatus : metrics.fields.lookup "status" = some (.str "ok") ∨
      metrics.fields.lookup "status" = some (.str "partial") := by
    have hget := (validServerWindow_parts h).1
    rw [List.contains_iff_mem, List.mem_pair, get, getOr] at hget
    cases hlookup : metrics.fields.lookup "status" with
    | none => simp [hlookup] at hget
    | some value => simpa [hlookup] using hget
  obtain ⟨gauges, gauge, hgauges, hgauge⟩ := metrics.gauges hstatus
  have hdict : getDict metrics.fields "gauges" = .ok gauges := by
    rw [getDict, getOr, hgauges]
    rfl
  have hkv : getDict gauges "kv_cache_usage_fraction" = .ok gauge := by
    rw [getDict, getOr, hgauge]
    rfl
  unfold cacheFraction
  rw [windowFields, hdict]
  simp only [bind, Except.bind, hkv]
  exact ⟨_, rfl⟩

theorem phaseTotal_isOk (phase : String) {windows : List Value}
    (h : ∀ window ∈ windows, ∃ fields, window = .dict fields ∧
      validServerWindow window = true) : ∃ total, phaseTotal phase windows = .ok total := by
  obtain ⟨values, hvalues, hnumeric⟩ := Except.exists_mapM_ok fun window hwindow => by
    obtain ⟨fields, rfl, hvalid⟩ := h window hwindow
    exact phaseSeconds_isOk phase hvalid
  obtain ⟨sum, hsum⟩ := knownSum_isOk hnumeric
  unfold phaseTotal
  rw [hvalues]
  simp only [bind, Except.bind, hsum]
  exact ⟨_, rfl⟩

/-- The windows of a run's replies are read without an error. -/
theorem serverMeasurements_isOk {inference : List Fields}
    (h : ∀ event ∈ inference, ∃ metrics : ServerMetrics,
      get event "server_metrics" = .dict metrics.fields) :
    ∃ measured, serverMeasurements inference = .ok measured := by
  unfold serverMeasurements
  simp only
  split
  · exact ⟨_, rfl⟩
  · rename_i hvalid
    rw [Bool.or_eq_true, not_or, Bool.not_eq_true', Bool.not_eq_false, List.all_eq_true] at hvalid
    have hwindows : ∀ window ∈ inference.map (get · "server_metrics"),
        ∃ metrics : ServerMetrics, window = .dict metrics.fields ∧
          validServerWindow window = true := by
      intro window hwindow
      obtain ⟨event, hevent, rfl⟩ := List.mem_map.1 hwindow
      obtain ⟨metrics, hmetrics⟩ := h event hevent
      exact ⟨metrics, hmetrics, hvalid.2 _ hwindow⟩
    have hdicts : ∀ window ∈ inference.map (get · "server_metrics"),
        ∃ fields, window = .dict fields ∧ validServerWindow window = true := by
      intro window hwindow
      obtain ⟨metrics, hdict, hv⟩ := hwindows window hwindow
      exact ⟨metrics.fields, hdict, hv⟩
    obtain ⟨prefill, hprefill⟩ := phaseTotal_isOk "prefill" hdicts
    obtain ⟨decode, hdecode⟩ := phaseTotal_isOk "decode" hdicts
    obtain ⟨fractions, hfractions, -⟩ := Except.exists_mapM_ok (P := fun _ => True)
      fun window hwindow => by
        obtain ⟨metrics, rfl, hv⟩ := hwindows window hwindow
        obtain ⟨value, hvalue⟩ := cacheFraction_isOk hv
        exact ⟨value, hvalue, trivial⟩
    simp only [bind, Except.bind, hprefill, hdecode, hfractions]
    exact ⟨_, rfl⟩

/-! ## The report -/

/-- The report agrees with a summary. -/
structure Agrees (summary : Fields) (metrics : TraceMetrics) : Prop where
  modelCalls : get summary "model_calls" = .int metrics.modelCalls
  toolCalls : get summary "tool_calls" = .int metrics.toolCalls
  inputTokens : get summary "total_input_tokens" = metrics.inputTokens
  cachedTokens : get summary "total_cached_input_tokens" = metrics.cachedTokens
  outputTokens : get summary "total_output_tokens" = metrics.outputTokens
  freshTokens : get summary "fresh_input_tokens" = metrics.freshTokens
  outputLimitHit : get summary "output_limit_hit" = optionValue .bool metrics.outputLimitHit
  telemetryComplete : metrics.telemetryComplete = true

/-- The trace of a run has one summary, and its report agrees with it. -/
def TraceAgrees (run : AgentRun) : Prop :=
  ∃ summary metrics, ofType "task_summary" run.execute.2.trace = [summary] ∧
    analyzeTrace run.execute.2.trace = .ok metrics ∧ Agrees summary metrics

variable {run : AgentRun} {s : AgentState} {replies : List InferenceEntry}
  {tools : List ToolEntry}

/-- The values of a field over the lines of the replies. -/
theorem map_get_inference (run : AgentRun) (key : String) (value : InferenceEntry → Value)
    (hid : key ≠ "session_id") (hms : key ≠ "elapsed_ms")
    (h : ∀ e : InferenceEntry, get (run.inferenceFields e.turn e.response) key = value e) :
    (replies.map (·.fields run)).map (get · key) = replies.map value := by
  rw [List.map_map]
  refine List.map_congr_left fun e _ => ?_
  rw [Function.comp_apply, InferenceEntry.fields, get_stamp _ _ hid hms, h]

theorem knownSum_inference (run : AgentRun) (key : String) (field : Usage → Option Int)
    (hsome : replies ≠ [])
    (hid : key ≠ "session_id") (hms : key ≠ "elapsed_ms")
    (h : ∀ e : InferenceEntry, get (run.inferenceFields e.turn e.response) key =
      optionValue .int (field e.response.usage)) :
    knownSum ((replies.map (·.fields run)).map (get · key)) =
      .ok (optionValue .int (totalUsage field replies)) := by
  have hvalues : (replies.map (·.fields run)).map (get · key) =
      (replies.map fun e => field e.response.usage).map (optionValue .int) := by
    rw [map_get_inference run key _ hid hms h, List.map_map]
    rfl
  rw [hvalues]
  exact knownSum_usage (mt List.map_eq_nil_iff.1 hsome)

theorem numeric_tool (run : AgentRun) (tools : List ToolEntry) (key : String) (hid : key ≠ "session_id") (hms : key ≠ "elapsed_ms")
    (h : ∀ e : ToolEntry, Numeric (get (run.toolFields e.turn e.index e.call e.result) key)) :
    ∃ sum, knownSumOrZero ((tools.map (·.fields run)).map (get · key)) = .ok sum := by
  refine knownSumOrZero_isOk fun value hvalue => ?_
  rw [List.map_map] at hvalue
  obtain ⟨e, -, rfl⟩ := List.mem_map.1 hvalue
  rw [Function.comp_apply, ToolEntry.fields, get_stamp _ _ hid hms]
  exact h e

/-- **The report of a trace with its books** gives the totals of the agent. -/
theorem analyzeTrace_books (events : List Fields) (h : Books run s replies tools)
    (hinference : ofType "inference" events = replies.map (·.fields run))
    (htool : ofType "tool" events = tools.map (·.fields run)) (hsome : replies ≠ []) :
    ∃ metrics, analyzeTrace events = .ok metrics ∧ metrics.modelCalls = s.modelCalls ∧
      metrics.toolCalls = s.toolCallsTotal ∧
      metrics.inputTokens = optionValue .int s.totalInput ∧
      metrics.cachedTokens = optionValue .int s.totalCached ∧
      metrics.outputTokens = optionValue .int s.totalOutput ∧
      metrics.freshTokens = optionValue .int (freshTokens s.totalInput s.totalCached) ∧
      metrics.telemetryComplete = completeReasons.contains
        (get ((ofType "task_summary" events).getLast?.getD []) "stop_reason") ∧
      metrics.outputLimitHit = reportedLimit ((ofType "task_summary" events).getLast?.getD []) := by
  have hinput := knownSum_inference run "input_tokens" Usage.inputTokens hsome (by decide)
    (by decide) fun _ => rfl
  have hcached := knownSum_inference run "cached_input_tokens" Usage.cachedTokens hsome
    (by decide) (by decide) fun _ => rfl
  have houtput := knownSum_inference run "output_tokens" Usage.outputTokens hsome (by decide)
    (by decide) fun _ => rfl
  have hlatency : ∃ sum, knownSum ((replies.map (·.fields run)).map (get · "latency_ms")) =
      .ok sum := by
    refine knownSum_isOk fun value hvalue => ?_
    rw [map_get_inference run "latency_ms"
      (fun e => .float (roundTo 2 (run.host.latency e.turn))) (by decide) (by decide)
      fun _ => rfl] at hvalue
    obtain ⟨e, -, rfl⟩ := List.mem_map.1 hvalue
    exact Or.inr ⟨_, rfl⟩
  have hserver : ∃ measured, serverMeasurements (replies.map (·.fields run)) = .ok measured := by
    refine serverMeasurements_isOk fun event hevent => ?_
    obtain ⟨e, -, rfl⟩ := List.mem_map.1 hevent
    refine ⟨run.host.metricsResult e.turn, ?_⟩
    rw [InferenceEntry.fields, get_stamp _ _ (by decide) (by decide)]
    rfl
  obtain ⟨latency, hlatency⟩ := hlatency
  obtain ⟨measured, hserver⟩ := hserver
  obtain ⟨ms, hms⟩ := numeric_tool run tools "duration_ms" (by decide) (by decide)
    fun e => ⟨_, rfl⟩
  obtain ⟨bytes, hbytes⟩ := numeric_tool run tools "output_bytes" (by decide) (by decide)
    fun e => ⟨_, rfl⟩
  obtain ⟨truncated, htruncated⟩ := numeric_tool run tools "truncated" (by decide) (by decide)
    fun e => ⟨_, rfl⟩
  obtain ⟨original, horiginal⟩ := numeric_tool run tools "original_output_chars" (by decide)
    (by decide) fun e => ⟨_, rfl⟩
  obtain ⟨retained, hretained⟩ := numeric_tool run tools "retained_output_chars" (by decide)
    (by decide) fun e => ⟨_, rfl⟩
  have hfresh : (if (optionValue Value.int s.totalInput).isNull ||
      (optionValue Value.int s.totalCached).isNull then .ok .null
      else arithmetic (· - ·) (· - ·) (optionValue .int s.totalInput)
        (optionValue .int s.totalCached)) =
      (.ok (optionValue .int (freshTokens s.totalInput s.totalCached)) :
        Except PyException Value) := by
    cases s.totalInput <;> cases s.totalCached <;> rfl
  rw [← h.totalInput] at hinput
  rw [← h.totalCached] at hcached
  rw [← h.totalOutput] at houtput
  unfold analyzeTrace
  simp only [hinference, htool, hinput, hcached, houtput, hlatency, hms, hbytes, htruncated,
    horiginal, hretained, hserver, hfresh, bind, Except.bind, pure, Except.pure]
  exact ⟨_, rfl, (List.length_map _).trans h.modelCalls.symm,
    (List.length_map _).trans h.toolCalls.symm, rfl, rfl, rfl, rfl, rfl, rfl⟩

/-! ## How a run ends -/

theorem Stops.unique {n : Nat} {reason reason' : String} (h : Stops run n reason)
    (h' : Stops run n reason') : reason = reason' := by
  cases h <;> cases h' <;> simp_all

theorem Stops.not_worked {n : Nat} {reason : String} (h : Stops run n reason) :
    ¬ Worked run n := by
  rintro ⟨response, hreply, hhit, hstatus, hcalls⟩
  cases h <;> simp_all

theorem LoopEnded.unique {reason reason' : String} (h : LoopEnded run reason)
    (h' : LoopEnded run reason') : reason = reason' := by
  rcases h with ⟨n, hn, hle, hworked, hstops⟩ | ⟨hall, rfl⟩
  · rcases h' with ⟨n', hn', hle', hworked', hstops'⟩ | ⟨hall', rfl⟩
    · rcases Nat.lt_trichotomy n n' with hlt | rfl | hlt
      · exact absurd (hworked' n hn hlt) hstops.not_worked
      · exact hstops.unique hstops'
      · exact absurd (hworked n' hn' hlt) hstops'.not_worked
    · exact absurd (hall' n hn hle) hstops.not_worked
  · rcases h' with ⟨n', hn', hle', -, hstops'⟩ | ⟨-, rfl⟩
    · exact absurd (hall n' hn' hle') hstops'.not_worked
    · rfl

theorem LoopEnded.orderly {reason : String} (h : LoopEnded run reason) : reason ∈ orderly := by
  rcases h with ⟨n, -, -, -, hstops⟩ | ⟨-, rfl⟩
  · cases hstops <;> decide
  · decide

/-- The run ends on a completed reply without calls and without an answer. -/
def BlankEnding (run : AgentRun) : Prop :=
  ∃ n, 1 ≤ n ∧ n ≤ run.settings.maxTurns ∧ (∀ m, 1 ≤ m → m < n → Worked run m) ∧
    Stops run n "empty_model_response"

/-- The reasons to end in order are those of a complete trace and the blank ending. -/
theorem complete_iff_not_blank {reason : String} (h : LoopEnded run reason) :
    completeReasons.contains (.str reason) = true ↔ ¬ BlankEnding run := by
  constructor
  · rintro hcomplete ⟨n, hn, hle, hworked, hstops⟩
    obtain rfl := h.unique (Or.inl ⟨n, hn, hle, hworked, hstops⟩)
    exact absurd hcomplete (by decide)
  · intro hblank
    have hother : reason ≠ "empty_model_response" := by
      rintro rfl
      rcases h with hstop | ⟨-, heq⟩
      · exact hblank hstop
      · exact absurd heq (by decide)
    have hreason := h.orderly
    simp only [AgentRun.orderly, List.mem_cons, List.not_mem_nil, or_false] at hreason
    rcases hreason with rfl | rfl | rfl | rfl
    · decide
    · decide
    · decide
    · exact absurd rfl hother

/-- The summary line of a state. -/
def summaryLine (run : AgentRun) (s : AgentState) : Fields :=
  run.stamp s.trace.length (("type", .str "task_summary") :: run.summary s)

/-- Its fields are those of the summary. -/
theorem lookup_summaryLine {key : String} (h : key ∉ ["session_id", "elapsed_ms", "type"]) :
    (summaryLine run s).lookup key = (run.summary s).lookup key := by
  simp only [List.mem_cons, List.not_mem_nil, or_false, not_or] at h
  rw [summaryLine, run.lookup_stamp _ _ h.1 h.2.1, List.lookup_cons, beq_false_of_ne h.2.2]

theorem get_summaryLine {key : String} (h : key ∉ ["session_id", "elapsed_ms", "type"]) :
    get (summaryLine run s) key = get (run.summary s) key :=
  congrArg (fun found => found.getD .null) (lookup_summaryLine h)

/-- The limit is reported as the summary has it, once the run ended in order. -/
theorem reportedLimit_summaryLine (h : s.stopReason ∈ orderly) :
    optionValue .bool (reportedLimit (summaryLine run s)) =
      get (summaryLine run s) "output_limit_hit" := by
  have hlookup : (summaryLine run s).lookup "output_limit_hit" =
      some (.bool (s.stopReason == "max_output_tokens")) := by
    have hfield : (run.summary s).lookup "output_limit_hit" =
        some (if orderly.contains s.stopReason then
          .bool (s.stopReason == "max_output_tokens") else .null) := rfl
    rw [lookup_summaryLine (by decide), hfield, if_pos (List.contains_iff_mem.2 h)]
  have hget : get (summaryLine run s) "output_limit_hit" =
      .bool (s.stopReason == "max_output_tokens") := by
    rw [get, getOr, hlookup]
    rfl
  rw [hget, reportedLimit, hlookup]
  rfl

/-- **The report of a fresh trace** that ends with its summary. -/
theorem report_of_books (h : Books run s replies tools) (hfresh : run.older = [])
    (hsome : replies ≠ []) (hended : LoopEnded run s.stopReason) :
    ofType "task_summary" (run.summarize s).trace = [summaryLine run s] ∧
      ∃ metrics, analyzeTrace (run.summarize s).trace = .ok metrics ∧
        (Agrees (summaryLine run s) metrics ↔ ¬ BlankEnding run) := by
  obtain ⟨mine, htrace, hsummary, hinference, htool⟩ := h.lines
  rw [hfresh, List.nil_append] at htrace
  have hevents : (run.summarize s).trace = mine ++ [summaryLine run s] := by
    rw [← htrace]
    rfl
  have hkind : kind (summaryLine run s) = some (.str "task_summary") := kind_stamp _ _
  have hother : ∀ {name : String}, name ≠ "task_summary" →
      ofType name [summaryLine run s] = [] := fun hname => ofType_eq_nil fun line hline => by
    rw [List.mem_singleton.1 hline, hkind]
    exact fun heq => hname (Value.str.inj (Option.some.inj heq)).symm
  have hlast : ofType "task_summary" (mine ++ [summaryLine run s]) = [summaryLine run s] := by
    rw [ofType_append, hsummary, ofType_singleton hkind]
    rfl
  rw [hevents]
  refine ⟨hlast, ?_⟩
  obtain ⟨metrics, hmetrics, hcalls, htools, hinput, hcached, houtput, hfreshTokens, hcomplete,
    hlimit⟩ := analyzeTrace_books (mine ++ [summaryLine run s]) h
      (by rw [ofType_append, hother (by decide), List.append_nil, hinference])
      (by rw [ofType_append, hother (by decide), List.append_nil, htool]) hsome
  refine ⟨metrics, hmetrics, ?_⟩
  rw [hlast, List.getLast?_singleton, Option.getD_some] at hcomplete hlimit
  have hreason : get (summaryLine run s) "stop_reason" = .str s.stopReason :=
    get_summaryLine (by decide)
  rw [hreason] at hcomplete
  rw [← complete_iff_not_blank hended, ← hcomplete]
  refine ⟨fun hagrees => hagrees.telemetryComplete, fun hc => ⟨?_, ?_, ?_, ?_, ?_, ?_, ?_, hc⟩⟩
  · rw [get_summaryLine (by decide), hcalls]
    rfl
  · rw [get_summaryLine (by decide), htools]
    rfl
  · rw [get_summaryLine (by decide), hinput]
    rfl
  · rw [get_summaryLine (by decide), hcached]
    rfl
  · rw [get_summaryLine (by decide), houtput]
    rfl
  · rw [get_summaryLine (by decide), hfreshTokens]
    rfl
  · rw [hlimit, reportedLimit_summaryLine hended.orderly]

/-- What is known of a run that raises nothing. -/
theorem execute_ok (hok : run.execute.1 = .ok ()) :
    ∃ s replies tools, run.execute.2 = run.summarize s ∧ Books run s replies tools ∧
      replies ≠ [] ∧ LoopEnded run s.stopReason := by
  have hconf : run.configured = true := by
    by_contra hconf
    rw [execute, if_neg hconf] at hok
    cases hok
  have hnotice : NoticePasses run := by
    by_contra hraised
    have hnot : (run.finalNotice run.handled.2).1 ≠ .ok () :=
      fun h => hraised (finalNotice_ok_iff.1 h)
    rw [execute, if_pos hconf] at hok
    unfold finish at hok
    simp only at hok
    split at hok
    · cases hok
    · rename_i s heq
      exact hnot (congrArg Prod.fst heq)
  rw [execute_of_notice hconf hnotice] at hok ⊢
  obtain ⟨replies, tools, hbooks, hsome, hended⟩ := handled_books run
  have hhandled : run.handled.1 = .ok () := hok
  have hnoted := noted_finalNotice run run.handled.2
  refine ⟨_, replies, tools, rfl, hbooks.noted hnoted, hsome hhandled, ?_⟩
  rw [hhandled] at hended
  rw [hnoted.stopReason]
  exact hended

theorem not_blank_of_agrees (hfresh : run.older = []) (hok : run.execute.1 = .ok ())
    (h : TraceAgrees run) : ¬ BlankEnding run := by
  obtain ⟨s, replies, tools, hexecute, hbooks, hsome, hended⟩ := execute_ok hok
  obtain ⟨hsummary, metrics, hmetrics, hagrees⟩ := report_of_books hbooks hfresh hsome hended
  obtain ⟨summary, metrics', hsummary', hmetrics', h⟩ := h
  rw [hexecute, hsummary] at hsummary'
  rw [hexecute, hmetrics] at hmetrics'
  cases hsummary'
  cases hmetrics'
  exact hagrees.1 h

theorem agrees_of_not_blank (hfresh : run.older = []) (hok : run.execute.1 = .ok ())
    (h : ¬ BlankEnding run) : TraceAgrees run := by
  obtain ⟨s, replies, tools, hexecute, hbooks, hsome, hended⟩ := execute_ok hok
  obtain ⟨hsummary, metrics, hmetrics, hagrees⟩ := report_of_books hbooks hfresh hsome hended
  rw [TraceAgrees, hexecute]
  exact ⟨summaryLine run s, metrics, hsummary, hmetrics, hagrees.2 h⟩

/-- **Trace and summary agree** on every run with a fresh trace that raises nothing, exactly
unless it ends on a blank reply. -/
theorem trace_agrees_iff (run : AgentRun) (hfresh : run.older = [])
    (hok : run.execute.1 = .ok ()) : TraceAgrees run ↔ ¬ BlankEnding run :=
  ⟨not_blank_of_agrees hfresh hok, agrees_of_not_blank hfresh hok⟩

/-- A model that answers. -/
theorem trace_agrees_iff_oneReply : TraceAgrees (oneReply "Done." none (.error .cancelled)) := by
  refine (trace_agrees_iff _ rfl rfl).2 ?_
  rintro ⟨n, -, -, -, hstops⟩
  generalize hreason : "empty_model_response" = reason at hstops
  cases hstops with
  | limit => exact absurd hreason (by decide)
  | answered => exact absurd hreason (by decide)
  | empty hreply _ _ _ hblank =>
    cases hreply
    exact absurd hblank (by decide)

/-- A model that completes with a blank reply: the report says that the trace is incomplete. -/
theorem blank_reply : (oneReply " " none (.error .cancelled)).older = [] ∧
    (oneReply " " none (.error .cancelled)).execute.1 = .ok () ∧
    ¬ TraceAgrees (oneReply " " none (.error .cancelled)) := by
  refine ⟨rfl, rfl, fun h => not_blank_of_agrees rfl rfl h ?_⟩
  exact ⟨1, Nat.le_refl _, by decide, fun m hm hlt => absurd hlt (by omega),
    .empty rfl rfl rfl rfl rfl⟩

end ReedCode.HarborAgent
