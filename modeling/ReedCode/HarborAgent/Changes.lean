import ReedCode.HarborAgent.Loop

/-!
# What the parts of a run change

* `kind` — the type of a trace line; `Noted` — a state that differs by lines of the trace that
  no report counts;
* `called` — every model call either is not sent, or is sent with the messages of the
  history and answers with the reply of its turn;
* `recordReply_eq` — a recorded reply is one `inference` line, its totals, and notes.
-/

set_option autoImplicit false

namespace ReedCode.HarborAgent

/-! ## Lines of the trace -/

/-- `event.get("type")`. -/
def kind (line : Fields) : Option Value := line.lookup "type"

/-- A line that no report counts. -/
def IsNote (line : Fields) : Prop :=
  kind line ≠ some (.str "inference") ∧ kind line ≠ some (.str "tool") ∧
    kind line ≠ some (.str "task_summary")

instance (line : Fields) : Decidable (IsNote line) := inferInstanceAs (Decidable (_ ∧ _ ∧ _))

theorem isNote_of_kind {line : Fields} {name : String} (h : kind line = some (.str name))
    (hname : name ∉ ["inference", "tool", "task_summary"]) : IsNote line := by
  rw [IsNote, h]
  simpa using hname

/-- The states differ by notes in the trace. -/
def Noted (s s' : AgentState) : Prop :=
  ∃ lines, (∀ line ∈ lines, IsNote line) ∧ s' = { s with trace := s.trace ++ lines }

theorem Noted.refl (s : AgentState) : Noted s s :=
  ⟨[], fun _ h => (by cases h), by rw [List.append_nil]⟩

theorem Noted.trans {s s' s'' : AgentState} (h : Noted s s') (h' : Noted s' s'') : Noted s s'' := by
  obtain ⟨lines, hl, rfl⟩ := h
  obtain ⟨lines', hl', rfl⟩ := h'
  refine ⟨lines ++ lines', fun line hline => ?_, by rw [List.append_assoc]⟩
  exact (List.mem_append.1 hline).elim (hl line) (hl' line)

namespace AgentRun

variable {run : AgentRun} {s : AgentState}

/-- The session fields in front of a line hide none of its own. -/
theorem lookup_stamp (line : Nat) (event : Fields) {key : String} (hid : key ≠ "session_id")
    (hms : key ≠ "elapsed_ms") : (run.stamp line event).lookup key = event.lookup key := by
  unfold stamp
  split
  · have h₁ : (key == "session_id") = false := beq_false_of_ne hid
    have h₂ : (key == "elapsed_ms") = false := beq_false_of_ne hms
    simp only [List.cons_append, List.nil_append, List.lookup_cons, h₁, h₂]
  · rfl

theorem kind_stamp (line : Nat) (event : Fields) : kind (run.stamp line event) = kind event :=
  run.lookup_stamp line event (by decide) (by decide)

theorem noted_log {event : Fields} (h : IsNote event) : Noted s (run.log event s) := by
  refine ⟨[run.stamp s.trace.length event], fun line hline => ?_, rfl⟩
  rw [List.mem_singleton.1 hline, IsNote, kind_stamp]
  exact h

theorem noted_boundary (phase : String) (fields : Fields) :
    Noted s (run.boundary phase fields s) := by
  unfold boundary
  split
  · exact noted_log (isNote_of_kind rfl (by decide))
  · exact .refl s

theorem noted_logMessages (run : AgentRun) (turn : Nat) : ∀ (items : List OutputItem) (s : AgentState),
    Noted s (run.logMessages turn items s)
  | [], s => .refl s
  | .chatMessage message :: items, s =>
    (noted_log (isNote_of_kind rfl (by decide))).trans
      (noted_logMessages run turn items _)
  | .chatFunctionCall _ :: items, s => noted_logMessages run turn items s
  | .responseCall _ :: items, s => noted_logMessages run turn items s
  | .responseItem _ _ :: items, s => noted_logMessages run turn items s

theorem noted_logFailure (turn : Nat) (e : PyException) : Noted s (run.logFailure turn e s) := by
  have hmetrics : ∀ s' : AgentState, Noted s' (if run.settings.serverMetricsUrl.any (· ≠ "") then
      run.log [("type", .str "failed_inference_metrics"), ("turn", .int turn),
        ("server_metrics", .dict (run.host.metricsResult turn).fields)] s'
    else s') := by
    intro s'
    split
    · exact noted_log (isNote_of_kind rfl (by decide))
    · exact .refl s'
  unfold logFailure
  refine Noted.trans ?_ (hmetrics _)
  split
  · exact noted_log (isNote_of_kind rfl (by decide))
  · exact .refl s

/-! ## Model calls -/

/-- The reply of a turn, if its call is sent and nothing is raised around it. -/
def reply (run : AgentRun) (turn : Nat) : Except PyException ModelResponse :=
  match run.settings.modelApi with
  | .responses => run.host.respond turn
  | .chat => do
    let (completion, timing) ← run.host.complete turn
    readCompletion completion (if run.settings.dynamo.isSome then timing else .null)

/-- **The outcomes of a model call.** -/
inductive Called (run : AgentRun) (turn : Nat) (s : AgentState) :
    Except PyException ModelResponse → AgentState → Prop
  | unsent {e : PyException} {s' : AgentState} (hs : Noted s s') :
      Called run turn s (.error e) s'
  | sent {result : Except PyException ModelResponse} {s' : AgentState}
      (messages : List (List Value))
      (hmessages : run.settings.modelApi = .responses ∧ messages = [] ∨
        ∃ m, run.settings.modelApi = .chat ∧ chatMessages INSTRUCTIONS s.history = .ok m ∧
          messages = [m])
      (hreply : ∀ response, result = .ok response → run.reply turn = .ok response)
      (hs : Noted { s with
        requests := s.requests ++ messages, attempts := s.attempts + 1 } s') :
      Called run turn s result s'

theorem chatRequest_messages {model : String} {history : List HistoryItem} {tools : List Fields}
    {limit : Option Nat} {dynamo : Option (Bool × String)} {messages : List Value}
    {request : Fields}
    (h : chatRequest model INSTRUCTIONS history tools limit dynamo = .ok (messages, request)) :
    chatMessages INSTRUCTIONS history = .ok messages := by
  unfold chatRequest at h
  obtain ⟨chatTools, -, h⟩ := Except.bind_eq_ok_iff.1 h
  obtain ⟨m, hm, h⟩ := Except.bind_eq_ok_iff.1 h
  simp only [pure, Except.pure, Except.ok.injEq, Prod.mk.injEq] at h
  rw [hm, h.1]

theorem called_createResponse (turn : Nat) :
    Called run turn s (run.createResponse turn s).1 (run.createResponse turn s).2 := by
  unfold createResponse
  split
  · rename_i hapi
    refine .sent [] (Or.inl ⟨hapi, rfl⟩) (fun response h => ?_) ?_
    · rw [reply, hapi]
      exact h
    · rw [List.append_nil]
      exact .refl _
  · rename_i hapi
    split
    · exact .unsent (.refl s)
    · rename_i messages request hrequest
      have hm := chatRequest_messages hrequest
      refine .sent [messages] (Or.inr ⟨messages, hapi, hm, rfl⟩) (fun response h => ?_) ?_
      · rw [reply, hapi]
        exact h
      · split
        · have hnote : Noted s (run.log [("type", .str "request"), ("turn", .int turn),
              ("request", .dict (capturedRequest request))] s) :=
            noted_log (isNote_of_kind rfl (by decide))
          obtain ⟨lines, hlines, heq⟩ := hnote
          exact ⟨lines, hlines, by rw [heq]⟩
        · exact .refl _

/-- What is noted after a call, or raised around it, leaves one of its outcomes. -/
theorem Called.raise {turn : Nat} {result : Except PyException ModelResponse}
    {s' s'' : AgentState} (h : Called run turn s result s') (e : PyException)
    (hs : Noted s' s'') : Called run turn s (.error e) s'' := by
  cases h with
  | unsent h => exact .unsent (h.trans hs)
  | sent messages hmessages _ h =>
    exact .sent messages hmessages (fun response h => (by cases h)) (h.trans hs)

/-- **Every model call has one of its outcomes.** -/
theorem called (turn : Nat) :
    Called run turn s (run.callModel turn s).1 (run.callModel turn s).2 := by
  have hinside : Called run turn s (run.insideMetrics turn s).1 (run.insideMetrics turn s).2 := by
    unfold insideMetrics
    split
    · exact .unsent (.refl s)
    · have hcreate : Called run turn s (run.createResponse turn s).1
          (run.createResponse turn s).2 := called_createResponse turn
      simp only
      split
      · exact hcreate.raise _ (.refl _)
      · exact hcreate
  unfold callModel
  split
  · rename_i e s' h
    rw [h] at hinside
    exact hinside.raise e (noted_logFailure turn e)
  · rename_i response s' h
    rw [h] at hinside
    exact hinside

/-! ## Recorded replies -/

/-- **A recorded reply** is one `inference` line with its totals; the rest are notes. -/
theorem recordReply_eq (run : AgentRun) (turn : Nat) (response : ModelResponse)
    (s : AgentState) :
    ∃ notes, (∀ line ∈ notes, IsNote line) ∧ run.recordReply turn response s = { s with
      modelCalls := s.modelCalls + 1
      modelMs := s.modelMs + run.host.latency turn
      totalInput := addUsage s.totalInput response.usage.inputTokens
      totalCached := addUsage s.totalCached response.usage.cachedTokens
      totalOutput := addUsage s.totalOutput response.usage.outputTokens
      trace := s.trace ++
        run.stamp s.trace.length (run.inferenceFields turn response) :: notes
      context := { s.context with
        nInputTokens := addUsage s.totalInput response.usage.inputTokens
        nCacheTokens := addUsage s.totalCached response.usage.cachedTokens
        nOutputTokens := addUsage s.totalOutput response.usage.outputTokens } } := by
  unfold recordReply
  simp only
  split
  · obtain ⟨notes, hnotes, heq⟩ := run.noted_logMessages turn response.output
      (run.log (run.inferenceFields turn response) { s with
        modelCalls := s.modelCalls + 1
        modelMs := s.modelMs + run.host.latency turn
        totalInput := addUsage s.totalInput response.usage.inputTokens
        totalCached := addUsage s.totalCached response.usage.cachedTokens
        totalOutput := addUsage s.totalOutput response.usage.outputTokens })
    refine ⟨notes, hnotes, ?_⟩
    rw [heq]
    simp [log]
  · exact ⟨[], fun _ h => (by cases h), rfl⟩

end AgentRun

end ReedCode.HarborAgent
