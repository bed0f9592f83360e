import ReedCode.HarborAgent.Books

/-!
# The `finally` clause

When a run leaves its summary.

* `Summarised` — one `task_summary` line, the last of the trace, with the reason the loop
  ended and with what the metadata has;
* `NoticePasses` — nothing comes out of the final notice of a session;
* `summarised_iff` — a run past its configuration is summarised exactly then: the clause
  awaits the notice before it writes the summary.
-/

set_option autoImplicit false

namespace ReedCode.HarborAgent

open AgentRun

/-- The run ends with its summary, which says how the loop ended. -/
def Summarised (run : AgentRun) : Prop :=
  ∃ mine place summary,
    run.execute.2.trace =
      run.older ++ mine ++ [run.stamp place (("type", .str "task_summary") :: summary)] ∧
    ofType "task_summary" mine = [] ∧
    (∃ reason, get summary "stop_reason" = .str reason ∧ HowEnded run run.handled.1 reason) ∧
    ∀ f ∈ summary, run.execute.2.context.metadata.get? f.1 = some f.2

/-- There is no session, or its final notice raises nothing that passes through. -/
def NoticePasses (run : AgentRun) : Prop :=
  run.settings.dynamo = none ∨
    run.host.openNotice = .ok () ∧ run.host.notify ≠ .error .cancelled ∧
      run.host.closeNotice = .ok ()

variable {run : AgentRun} {s : AgentState}

theorem noted_finalNotice (run : AgentRun) (s : AgentState) : Noted s (run.finalNotice s).2 := by
  unfold finalNotice
  split
  · exact .refl s
  · split
    · exact .refl s
    · simp only
      split
      · exact .refl s
      · split
        · exact .refl s
        · exact noted_log (isNote_of_kind rfl (by decide))

theorem finishSession_isOk_iff :
    (∃ notice, run.finishSession = .ok notice) ↔ run.host.notify ≠ .error .cancelled := by
  unfold finishSession
  match run.host.notify with
  | .ok (completionId, usage) => exact ⟨fun _ h => (by cases h), fun _ => ⟨_, rfl⟩⟩
  | .error (.error name) => exact ⟨fun _ h => (by cases h), fun _ => ⟨_, rfl⟩⟩
  | .error .cancelled => exact ⟨fun ⟨_, h⟩ => (by cases h), fun h => absurd rfl h⟩

/-- **What comes out of the final notice.** -/
theorem finalNotice_ok_iff : (run.finalNotice s).1 = .ok () ↔ NoticePasses run := by
  unfold finalNotice NoticePasses session
  cases hdynamo : run.settings.dynamo with
  | none => exact ⟨fun _ => Or.inl rfl, fun _ => rfl⟩
  | some on =>
    rw [← finishSession_isOk_iff]
    simp only [Option.map_some, reduceCtorEq, false_or]
    cases run.host.openNotice with
    | error e => exact ⟨fun h => (by cases h), fun h => (by cases h.1)⟩
    | ok u =>
      cases run.host.closeNotice with
      | error e => exact ⟨fun h => (by cases h), fun h => (by cases h.2.2)⟩
      | ok u =>
        cases hnotice : run.finishSession with
        | error e => exact ⟨fun h => (by cases h), fun ⟨_, ⟨_, h⟩, _⟩ => (by cases h)⟩
        | ok notice => exact ⟨fun _ => ⟨rfl, ⟨notice, rfl⟩, rfl⟩, fun _ => rfl⟩

/-- Its keys are distinct, so the metadata take over every field of a summary. -/
theorem summary_keys_nodup (run : AgentRun) (s : AgentState) :
    ((run.summary s).map Prod.fst).Nodup := by
  have hkeys : (run.summary s).map Prod.fst = ["agent_version", "stop_reason", "agent_completed",
      "output_limit_hit", "model_calls", "tool_calls", "tool_failures", "total_input_tokens",
      "total_cached_input_tokens", "total_output_tokens", "fresh_input_tokens",
      "model_latency_ms", "tool_latency_ms", "wall_time_ms", "max_tool_output_chars",
      "tool_timeout_sec", "output_policy"] := rfl
  rw [hkeys]
  decide

/-- A run that is past its configuration and its notice. -/
theorem execute_of_notice (hconf : run.configured = true) (hnotice : NoticePasses run) :
    run.execute = (run.handled.1, run.summarize (run.finalNotice run.handled.2).2) := by
  have hok : (run.finalNotice run.handled.2).1 = .ok () := finalNotice_ok_iff.2 hnotice
  unfold execute finish
  rw [if_pos hconf]
  simp only
  cases hresult : run.finalNotice run.handled.2 with
  | mk result s =>
    rw [hresult] at hok
    cases hok
    rfl

/-- No summary is written when the notice raises. -/
theorem execute_of_raised (hnotice : ¬ NoticePasses run) :
    ∃ mine, run.execute.2.trace = run.older ++ mine ∧ ofType "task_summary" mine = [] := by
  unfold execute
  split
  · obtain ⟨replies, tools, hbooks, -⟩ := handled_books run
    have hnoted := hbooks.noted (noted_finalNotice run run.handled.2)
    have hraised : (run.finalNotice run.handled.2).1 ≠ .ok () :=
      fun hok => hnotice (finalNotice_ok_iff.1 hok)
    unfold finish
    simp only
    cases hresult : run.finalNotice run.handled.2 with
    | mk result s =>
      rw [hresult] at hnoted hraised
      cases result with
      | ok u => exact absurd rfl hraised
      | error e =>
        obtain ⟨mine, htrace, hsummary, -⟩ := hnoted.lines
        exact ⟨mine, htrace, hsummary⟩
  · exact ⟨[], (List.append_nil _).symm, rfl⟩

theorem not_summarised_of_raised (hnotice : ¬ NoticePasses run) : ¬ Summarised run := by
  rintro ⟨mine, place, summary, htrace, -⟩
  obtain ⟨mine', htrace', hnone⟩ := execute_of_raised hnotice
  rw [htrace', List.append_assoc, List.append_cancel_left_eq] at htrace
  have hkind : kind (run.stamp place (("type", .str "task_summary") :: summary)) =
      some (.str "task_summary") := kind_stamp _ _
  rw [htrace, ofType_append, ofType_singleton hkind] at hnone
  exact List.cons_ne_nil _ _ (List.append_eq_nil_iff.1 hnone).2

theorem Noted.stopReason {s' : AgentState} (h : Noted s s') : s'.stopReason = s.stopReason := by
  obtain ⟨lines, -, rfl⟩ := h
  rfl

theorem summarised_of_notice (hconf : run.configured = true) (hnotice : NoticePasses run) :
    Summarised run := by
  obtain ⟨replies, tools, hbooks, -, hended⟩ := handled_books run
  have hnoted := noted_finalNotice run run.handled.2
  obtain ⟨mine, htrace, hsummary, -⟩ := (hbooks.noted hnoted).lines
  rw [Summarised, execute_of_notice hconf hnotice]
  refine ⟨mine, (run.finalNotice run.handled.2).2.trace.length,
    run.summary (run.finalNotice run.handled.2).2, ?_, hsummary,
    ⟨run.handled.2.stopReason, ?_, hended⟩, fun f hf => ?_⟩
  · rw [← htrace]
    rfl
  · rw [← hnoted.stopReason]
    rfl
  · exact FinMap.get?_foldl_insert_of_mem (summary_keys_nodup run _) hf

/-- **Every run past its configuration is summarised exactly when** there is no session, or
the final notice opens and closes its client and is not cancelled. -/
theorem summarised_iff (run : AgentRun) (hconf : run.configured = true) :
    Summarised run ↔ NoticePasses run :=
  ⟨fun h => by_contra fun hnotice => not_summarised_of_raised hnotice h,
    summarised_of_notice hconf⟩

/-! ## A short run -/

/-- A task whose model answers at once with `content`. -/
def oneReply (content : String) (dynamo : Option Bool)
    (notify : Except PyException (Value × Value)) : AgentRun where
  settings := {
    maxTurns := 30, maxToolOutput := 20000, toolTimeout := 120, outputPolicy := .head
    modelApi := .chat, maxOutputTokens := none, serverMetricsUrl := none
    metricsSampleInterval := 1 / 10, dynamo, captureRequests := false
    limits_pos := by decide
    tokens_pos := fun _ h => (by cases h)
    interval_pos := by norm_num
    dynamo_chat := fun _ => ⟨rfl, rfl⟩
    capture_dynamo := fun h => (by cases h) }
  modelName := "model"
  baseUrl := true
  instruction := "Fix the bug."
  older := []
  metadata := FinMap.empty
  host := {
    openClient := .ok ()
    enterMetrics := fun _ => .ok ()
    respond := fun _ => .error .cancelled
    complete := fun _ => .ok ({
      choices := [⟨some "stop", ⟨"assistant", some content, none, [], fun _ h => (by cases h)⟩⟩]
      usage := some ⟨some 12, some 3, none⟩
      model := "model"
      id := "completion" }, .null)
    exitMetrics := fun _ => .ok ()
    execute := fun _ _ => .error .cancelled
    closeClient := .ok ()
    openNotice := .ok ()
    notify
    closeNotice := .ok ()
    writeAnswer := .ok ()
    sessionId := ⟨"session", by simp⟩
    startedAt := "2026-01-01T00:00:00+00:00"
    elapsed := fun _ => 0
    latency := fun _ => 0
    toolTime := fun _ _ => 0
    noticeTime := 0
    wallTime := 0
    metricsResult := fun _ => ⟨[("status", .str "disabled")], fun h => absurd h (by decide)⟩
    failedTiming := fun _ => .null }

/-- A run that ends in order is summarised. -/
theorem summarised_iff_oneReply : Summarised (oneReply "Done." none (.error .cancelled)) :=
  (summarised_iff _ rfl).2 (Or.inl rfl)

/-- The run is cancelled while it awaits its final notice: no summary is written. -/
theorem cancelled_notice : (oneReply "Done." (some false) (.error .cancelled)).configured = true ∧
    ¬ Summarised (oneReply "Done." (some false) (.error .cancelled)) := by
  refine ⟨rfl, not_summarised_of_raised ?_⟩
  rintro (hnone | ⟨-, hnotify, -⟩)
  · cases hnone
  · exact hnotify rfl

end ReedCode.HarborAgent
