import ReedCode.HarborAgent.Cleanup
import ReedCode.HarborAgent.History
import ReedCode.Replay.Workload

/-!
# The tape of a captured run

What the trace of a run says that records its requests, line by line.

* `Alike` — two lines that differ only by what a session stamps on them;
* `TurnRecord`, `TurnRecord.lines` — what happened in one turn, and the lines it leaves;
* `turn_tape` — a turn that goes on, or answers, leaves exactly its lines, and `loop_tape` the
  turns that are left;
* `execute_tape` — the trace of a run that answers, whole.
-/

set_option autoImplicit false

namespace ReedCode.Replay

open HarborAgent AgentRun

/-! ## Lines -/

/-- The lines agree on everything but the stamp of a session. -/
def Alike (line body : Fields) : Prop :=
  ∀ key, key ≠ "session_id" → key ≠ "elapsed_ms" → line.lookup key = body.lookup key

theorem Alike.get {line body : Fields} (h : Alike line body) {key : String}
    (hid : key ≠ "session_id") (hms : key ≠ "elapsed_ms") :
    get line key = get body key :=
  congrArg (fun found => found.getD .null) (h key hid hms)

theorem Alike.require {line body : Fields} (h : Alike line body) {key : String}
    (hid : key ≠ "session_id") (hms : key ≠ "elapsed_ms") :
    require line key = require body key := by
  unfold Replay.require
  rw [h key hid hms]

/-- A tape: the lines of a trace, without their stamps. -/
def Tape (trace bodies : List Fields) : Prop := List.Forall₂ Alike trace bodies

theorem Tape.append {trace bodies trace' bodies' : List Fields} (h : Tape trace bodies)
    (h' : Tape trace' bodies') : Tape (trace ++ trace') (bodies ++ bodies') :=
  List.rel_append h h'

theorem Tape.ofType {trace bodies : List Fields} (h : Tape trace bodies) (name : String) :
    Tape (ofType name trace) (ofType name bodies) := by
  refine List.rel_filter (fun line body hline => ?_) h
  have hget : HarborAgent.get line "type" = HarborAgent.get body "type" :=
    hline.get (by decide) (by decide)
  simp only [hget]

theorem Tape.typed {trace bodies : List Fields} (h : Tape trace bodies)
    (hbodies : ∀ body ∈ bodies, kind body ≠ none) : ∀ line ∈ trace, kind line ≠ none := by
  induction h with
  | nil => exact fun line hline => (by cases hline)
  | cons hhead _ ih =>
    obtain ⟨hfirst, hrest⟩ := List.forall_mem_cons.1 hbodies
    refine List.forall_mem_cons.2 ⟨?_, ih hrest⟩
    rwa [kind, hhead "type" (by decide) (by decide)]

variable {run : AgentRun} {s s' : AgentState} {bodies : List Fields}

theorem Tape.log (h : Tape s.trace bodies) (event : Fields) :
    Tape (run.log event s).trace (bodies ++ [event]) :=
  h.append (.cons (fun _ hid hms => run.lookup_stamp _ event hid hms) .nil)

/-! ## Turns -/

/-- What happened in a turn: the messages sent, the reply with its message, and the results of
its calls. -/
structure TurnRecord where
  number : Nat
  messages : List Value
  response : ModelResponse
  message : Fields
  results : List (FunctionCall × ToolObservation)

/-- A `lifecycle` line. -/
def lifecycle (phase : String) (fields : Fields) : Fields :=
  [("type", .str "lifecycle"), ("phase", .str phase)] ++ fields

/-- The lines of the calls of a turn, from the call `index` on. -/
def toolLines (run : AgentRun) (number : Nat) :
    Nat → List (FunctionCall × ToolObservation) → List Fields
  | _, [] => []
  | index, (call, result) :: results =>
    [lifecycle "tool_start" [("turn", .int number), ("call_id", .str call.callId),
        ("tool", .str call.name)],
      run.toolFields number index call result] ++ toolLines run number (index + 1) results

/-- The lines of the tools, when there are calls. -/
def toolPhase (run : AgentRun) (number : Nat) :
    List (FunctionCall × ToolObservation) → List Fields
  | [] => []
  | results => [lifecycle "tools_start" [("turn", .int number),
      ("pending_calls", .int results.length)]] ++ toolLines run number 0 results ++
    [lifecycle "tools_complete" [("turn", .int number)]]

/-- The request of a session, as `create_response` sends it. -/
def sentRequest (run : AgentRun) (on : Bool) (session : String) (messages : List Value) : Fields :=
  [("model", .str run.modelName), ("messages", .list messages),
      ("tools", .list (TOOLS.map fun tool => .dict [("type", .str "function"),
        ("function", .dict (tool.filter fun f => f.1 != "type"))])),
      ("tool_choice", .str "auto")] ++
    (match run.settings.maxOutputTokens with
      | some limit => [("max_completion_tokens", .int limit)]
      | none => []) ++ requestOptions on session

def requestLine (run : AgentRun) (number : Nat) (messages : List Value) : Fields :=
  [("type", .str "request"), ("turn", .int number), ("request", .dict (capturedRequest
    (sentRequest run (run.settings.dynamo.getD false) run.host.sessionId.text messages)))]

def messageLine (number : Nat) (message : Fields) : Fields :=
  [("type", .str "assistant_message"), ("turn", .int number), ("message", .dict message)]

def TurnRecord.lines (run : AgentRun) (t : TurnRecord) : List Fields :=
  [lifecycle "model_start" [("turn", .int t.number)], requestLine run t.number t.messages,
    run.inferenceFields t.number t.response, messageLine t.number t.message] ++
    toolPhase run t.number t.results

/-- The record of a turn of the run. -/
structure TurnRecord.Of (run : AgentRun) (t : TurnRecord) : Prop where
  sent : t.messages ≠ []
  reply : run.reply t.number = .ok t.response
  status : t.response.status = some "completed"
  message : ∃ calls, t.response.output = .chatMessage t.message :: calls
  calls : t.results.map Prod.fst = t.response.toolCalls

/-! ## The request -/

theorem chatTools : TOOLS.mapM chatTool = .ok (TOOLS.map fun tool => .dict
    [("type", .str "function"), ("function", .dict (tool.filter fun f => f.1 != "type"))]) := by
  rw [Except.mapM_eq_ok]
  decide +kernel

theorem chatRequest_sent {on : Bool} {session : String} {history : List HistoryItem}
    {messages : List Value} {request : Fields}
    (h : chatRequest run.modelName INSTRUCTIONS history TOOLS run.settings.maxOutputTokens
      (some (on, session)) = .ok (messages, request)) :
    request = sentRequest run on session messages := by
  unfold chatRequest at h
  obtain ⟨tools, htools, h⟩ := Except.bind_eq_ok_iff.1 h
  obtain ⟨m, -, h⟩ := Except.bind_eq_ok_iff.1 h
  rw [chatTools, Except.ok.injEq] at htools
  simp only [pure, Except.pure, Except.ok.injEq, Prod.mk.injEq] at h
  rw [← h.2, ← htools, ← h.1]
  rfl

/-! ## One turn -/

/-- The settings of a run that captures: the Chat API, in a session, without server metrics. -/
theorem captured_settings (hcapture : run.settings.captureRequests = true) :
    ∃ on, run.settings.dynamo = some on ∧ run.settings.modelApi = .chat ∧
      (run.settings.serverMetricsUrl.any (· ≠ "")) = false := by
  have hdynamo := run.settings.capture_dynamo hcapture
  obtain ⟨on, hon⟩ := Option.ne_none_iff_exists'.1 hdynamo
  obtain ⟨hapi, hurl⟩ := run.settings.dynamo_chat hdynamo
  refine ⟨on, hon, hapi, ?_⟩
  cases hmetrics : run.settings.serverMetricsUrl with
  | none => rfl
  | some url =>
    rw [hmetrics, Option.getD_some] at hurl
    simp [hurl]

theorem boundary_eq (hcapture : run.settings.captureRequests = true) (phase : String)
    (fields : Fields) (s : AgentState) :
    run.boundary phase fields s = run.log (lifecycle phase fields) s := by
  obtain ⟨on, hon, -⟩ := captured_settings hcapture
  unfold boundary session
  rw [hon]
  rfl

/-- A model call that brings a reply: its request is captured and sent. -/
theorem callModel_ok (hcapture : run.settings.captureRequests = true) {n : Nat}
    {response : ModelResponse} (h : run.callModel n s = (.ok response, s')) :
    ∃ messages, messages ≠ [] ∧ run.reply n = .ok response ∧
      s'.requests = s.requests ++ [messages] ∧
      s'.trace = (run.log (requestLine run n messages) s).trace := by
  obtain ⟨on, hon, hapi, -⟩ := captured_settings hcapture
  have hinside : run.insideMetrics n s = (.ok response, s') := by
    unfold callModel at h
    split at h
    · cases h
    · rename_i heq
      rw [heq]
      exact h
  have hcreate : run.createResponse n s = (.ok response, s') := by
    unfold insideMetrics at hinside
    split at hinside
    · cases hinside
    · dsimp only at hinside
      split at hinside
      · cases hinside
      · exact hinside
  unfold createResponse at hcreate
  rw [hapi, hon] at hcreate
  dsimp only [Option.map_some] at hcreate
  split at hcreate
  · cases hcreate
  · rename_i messages request hrequest
    rw [hcapture, if_pos rfl, Prod.mk.injEq] at hcreate
    obtain ⟨hresponse, rfl⟩ := hcreate
    refine ⟨messages, ?_, ?_, rfl, ?_⟩
    · obtain ⟨items, -, rfl⟩ := chatMessages_eq_ok.1 (chatRequest_messages hrequest)
      exact List.cons_ne_nil _ _
    · rw [reply, hapi, hon]
      exact hresponse
    · rw [chatRequest_sent hrequest, requestLine, hon]
      rfl

theorem logMessages_calls (run : AgentRun) (n : Nat) : ∀ {calls : List OutputItem}
    {items : List ChatToolCall}, items.map readCall = calls.map .ok → ∀ s : AgentState,
      run.logMessages n calls s = s
  | [], _, _, _ => rfl
  | item :: calls, [], h, _ => by cases h
  | item :: calls, call :: items, h, s => by
    rw [List.map_cons, List.map_cons, List.cons.injEq] at h
    rw [readCall_eq_ok h.1]
    exact logMessages_calls run n h.2 s

/-- A completed reply of a captured run is recorded with its one message. -/
theorem recordReply_tape (hcapture : run.settings.captureRequests = true) {n : Nat}
    {response : ModelResponse} (hreply : run.reply n = .ok response)
    (hstatus : response.status = some "completed") :
    ∃ message calls, response.output = .chatMessage message :: calls ∧
      ∀ {s : AgentState} {bodies : List Fields}, Tape s.trace bodies →
        Tape (run.recordReply n response s).trace
          (bodies ++ [run.inferenceFields n response, messageLine n message]) := by
  obtain ⟨on, hon, hapi, -⟩ := captured_settings hcapture
  rw [reply, hapi] at hreply
  obtain ⟨⟨completion, timing⟩, -, hread⟩ := Except.bind_eq_ok_iff.1 hreply
  obtain ⟨message, calls, houtput, hcalls⟩ := readCompletion_eq_ok hread hstatus
  refine ⟨message.modelDump, calls, houtput, fun {s bodies} h => ?_⟩
  obtain ⟨s₁, htrace, hs₁⟩ : ∃ s₁ : AgentState, s₁.trace = s.trace ∧
      (run.recordReply n response s).trace =
        (run.logMessages n response.output
          (run.log (run.inferenceFields n response) s₁)).trace := by
    refine ⟨{ s with
      modelCalls := s.modelCalls + 1
      modelMs := s.modelMs + run.host.latency n
      totalInput := addUsage s.totalInput response.usage.inputTokens
      totalCached := addUsage s.totalCached response.usage.cachedTokens
      totalOutput := addUsage s.totalOutput response.usage.outputTokens }, rfl, ?_⟩
    unfold recordReply
    rw [hcapture]
    rfl
  rw [hs₁, houtput, logMessages, logMessages_calls run n hcalls]
  have hfirst : Tape (run.log (run.inferenceFields n response) s₁).trace
      (bodies ++ [run.inferenceFields n response]) := (htrace ▸ h : Tape s₁.trace bodies).log _
  have hlogged : Tape (run.log (messageLine n message.modelDump)
      (run.log (run.inferenceFields n response) s₁)).trace _ := hfirst.log _
  rwa [List.append_assoc] at hlogged

/-- The tools of a turn, when none raises. -/
theorem runTools_tape (hcapture : run.settings.captureRequests = true) (n : Nat) :
    ∀ (calls : List FunctionCall) (index : Nat) {s s' : AgentState} {bodies : List Fields},
      run.runTools n index calls s = (.ok (), s') → Tape s.trace bodies →
        ∃ results, results.map Prod.fst = calls ∧ s'.requests = s.requests ∧
          Tape s'.trace (bodies ++ toolLines run n index results)
  | [], _, s, s', bodies, h, htape => by
    cases h
    exact ⟨[], rfl, rfl, by rwa [toolLines, List.append_nil]⟩
  | call :: calls, index, s, s', bodies, h, htape => by
    unfold runTools at h
    rw [boundary_eq hcapture] at h
    dsimp only at h
    split at h
    · cases h
    · rename_i result _
      obtain ⟨s₁, hs₁⟩ : ∃ s₁, run.log (lifecycle "tool_start" [("turn", .int n),
        ("call_id", .str call.callId), ("tool", .str call.name)]) s = s₁ := ⟨_, rfl⟩
      have hstart : Tape s₁.trace (bodies ++ [lifecycle "tool_start" [("turn", .int n),
        ("call_id", .str call.callId), ("tool", .str call.name)]]) := hs₁ ▸ htape.log _
      rw [hs₁] at h
      have hlogged : Tape (run.log (run.toolFields n index call result) s₁).trace _ :=
        hstart.log _
      obtain ⟨results, hresults, hrequests, hrest⟩ := runTools_tape hcapture n calls (index + 1) h
        hlogged
      have hsame : s₁.requests = s.requests := hs₁ ▸ rfl
      refine ⟨(call, result) :: results, by rw [List.map_cons, hresults], hrequests.trans hsame, ?_⟩
      rw [toolLines]
      simpa only [List.append_assoc, List.cons_append, List.nil_append] using hrest

/-- **A turn that goes on, or that answers**, leaves the lines of its record. -/
theorem turn_tape (hcapture : run.settings.captureRequests = true) {n : Nat} {turnEnd : TurnEnd}
    (h : run.turn n s = (turnEnd, s'))
    (hend : turnEnd = .next ∨ turnEnd = .stopped ∧ s'.stopReason = "no_tool_calls")
    (htape : Tape s.trace bodies) :
    ∃ t : TurnRecord, t.number = n ∧ t.Of run ∧ s'.requests = s.requests ++ [t.messages] ∧
      Tape s'.trace (bodies ++ t.lines run) := by
  unfold turn at h
  rw [boundary_eq hcapture] at h
  dsimp only at h
  split at h
  · cases h
    rcases hend with hend | ⟨hend, -⟩ <;> cases hend
  rename_i response s₁ hmodel
  obtain ⟨messages, hmessages, hreply, hsent, htrace⟩ := callModel_ok hcapture hmodel
  have hstart : Tape (run.log (lifecycle "model_start" [("turn", .int n)]) s).trace
      (bodies ++ [lifecycle "model_start" [("turn", .int n)]]) := htape.log _
  have hcalled : Tape s₁.trace (bodies ++ [lifecycle "model_start" [("turn", .int n)]] ++
      [requestLine run n messages]) := htrace ▸ hstart.log _
  split at h
  · obtain ⟨rfl, rfl⟩ := Prod.mk.inj h
    rcases hend with hend | ⟨-, hreason⟩
    · cases hend
    · have hlimit : "max_output_tokens" = "no_tool_calls" := hreason
      exact absurd hlimit (by decide)
  split at h
  · cases h
    rcases hend with hend | ⟨hend, -⟩ <;> cases hend
  rename_i hstatus
  rw [not_not] at hstatus
  obtain ⟨message, calls, houtput, hrecord⟩ := recordReply_tape hcapture hreply hstatus
  have hrecorded := hrecord hcalled
  have hrequests : (run.recordReply n response s₁).requests = s.requests ++ [messages] := by
    obtain ⟨notes, -, heq⟩ := recordReply_eq run n response s₁
    rw [heq]
    exact hsent
  generalize run.recordReply n response s₁ = s₂ at h hrecorded hrequests
  split at h
  · rename_i hcalls
    split at h
    · obtain ⟨rfl, rfl⟩ := Prod.mk.inj h
      rcases hend with hend | ⟨-, hreason⟩
      · cases hend
      · have hempty : "empty_model_response" = "no_tool_calls" := hreason
        exact absurd hempty (by decide)
    · split at h
      · cases h
        rcases hend with hend | ⟨hend, -⟩ <;> cases hend
      · obtain ⟨rfl, rfl⟩ := Prod.mk.inj h
        refine ⟨⟨n, messages, response, message, []⟩, rfl, ⟨hmessages, hreply, hstatus,
          ⟨calls, houtput⟩, hcalls.symm⟩, hrequests, ?_⟩
        simpa only [TurnRecord.lines, toolPhase, List.append_nil, List.append_assoc,
          List.cons_append, List.nil_append] using hrecorded
  · rename_i call pending hcalls
    rw [boundary_eq hcapture] at h
    have hbegun : Tape (run.log (lifecycle "tools_start" [("turn", .int n),
        ("pending_calls", .int (call :: pending).length)])
          { s₂ with history := s₂.history ++ response.output.map .output }).trace _ :=
      hrecorded.log _
    split at h
    · cases h
      rcases hend with hend | ⟨hend, -⟩ <;> cases hend
    · rename_i s₃ htools
      obtain ⟨results, hresults, hsame, htape'⟩ := runTools_tape hcapture n _ 0 htools hbegun
      rw [boundary_eq hcapture] at h
      obtain ⟨-, rfl⟩ := Prod.mk.inj h
      have hdone : Tape (run.log (lifecycle "tools_complete" [("turn", .int n)]) s₃).trace _ :=
        htape'.log _
      refine ⟨⟨n, messages, response, message, results⟩, rfl, ⟨hmessages, hreply, hstatus,
        ⟨calls, houtput⟩, hresults.trans hcalls.symm⟩, hsame.trans hrequests, ?_⟩
      · cases results with
        | nil => cases hresults
        | cons first results =>
          have hlength : (call :: pending).length = (first :: results).length := by
            rw [← hresults, List.length_map]
          rw [hlength] at hdone
          simpa only [TurnRecord.lines, toolPhase, List.append_assoc, List.cons_append,
            List.nil_append] using hdone

/-! ## The whole run -/

/-- The records of successive turns, from turn `n` on. -/
structure Recorded (run : AgentRun) (n : Nat) (turns : List TurnRecord) : Prop where
  numbered : turns.map (·.number) = List.range' n turns.length
  records : ∀ t ∈ turns, t.Of run
  some : turns ≠ []

theorem Recorded.one {n : Nat} {t : TurnRecord} (ht : t.Of run) (hn : t.number = n) :
    Recorded run n [t] := by
  refine ⟨by simp [hn], fun u hu => ?_, List.cons_ne_nil _ _⟩
  rwa [List.mem_singleton.1 hu]

theorem Recorded.cons {n : Nat} {t : TurnRecord} {turns : List TurnRecord} (ht : t.Of run)
    (hn : t.number = n) (h : Recorded run (n + 1) turns) : Recorded run n (t :: turns) := by
  refine ⟨?_, List.forall_mem_cons.2 ⟨ht, h.records⟩, List.cons_ne_nil _ _⟩
  rw [List.map_cons, h.numbered, hn, List.length_cons, List.range'_succ]

theorem loop_tape (hcapture : run.settings.captureRequests = true) : ∀ (left n : Nat)
    {s s' : AgentState} {bodies : List Fields}, run.loop left n s = (.ok (), s') →
      s'.stopReason = "no_tool_calls" → Tape s.trace bodies →
      ∃ turns, Recorded run n turns ∧ s'.requests = s.requests ++ turns.map (·.messages) ∧
        Tape s'.trace (bodies ++ turns.flatMap (·.lines run))
  | 0, n, s, s', bodies, h, hreason, _ => by
    obtain ⟨-, rfl⟩ := Prod.mk.inj h
    have hlast : "max_turns" = "no_tool_calls" := hreason
    exact absurd hlast (by decide)
  | left + 1, n, s, s', bodies, h, hreason, htape => by
    unfold loop at h
    split at h
    · cases h
    · rename_i s₁ hturn
      obtain ⟨-, rfl⟩ := Prod.mk.inj h
      obtain ⟨t, hn, ht, hrequests, hlines⟩ :=
        turn_tape hcapture hturn (Or.inr ⟨rfl, hreason⟩) htape
      refine ⟨[t], .one ht hn, hrequests, ?_⟩
      rwa [List.flatMap_singleton]
    · rename_i s₁ hturn
      obtain ⟨t, hn, ht, hrequests, hlines⟩ := turn_tape hcapture hturn (Or.inl rfl) htape
      obtain ⟨turns, hturns, hrest, htape'⟩ := loop_tape hcapture left (n + 1) h hreason hlines
      refine ⟨t :: turns, .cons ht hn hturns, ?_, ?_⟩
      · rw [hrest, hrequests, List.append_assoc]
        rfl
      · rwa [List.append_assoc, ← List.flatMap_cons] at htape'

/-- The trace of a run that answers: its configuration and its turns, whole. -/
theorem handled_tape (hcapture : run.settings.captureRequests = true) (hfresh : run.older = [])
    (hok : run.handled.1 = .ok ()) (hreason : run.handled.2.stopReason = "no_tool_calls") :
    ∃ turns, Recorded run 1 turns ∧ run.handled.2.requests = turns.map (·.messages) ∧
      Tape run.handled.2.trace (run.runConfig :: turns.flatMap (·.lines run)) := by
  have hstart : Tape (run.log run.runConfig run.initial).trace [run.runConfig] := by
    have hinitial : Tape run.initial.trace [] := by
      rw [initial, hfresh]
      exact .nil
    exact hinitial.log _
  unfold handled body at hok hreason ⊢
  cases hopen : run.host.openClient with
  | error e =>
    rw [hopen] at hok
    cases hok
  | ok u =>
    rw [hopen] at hok hreason
    dsimp only at hok hreason ⊢
    cases hloop : run.loop run.settings.maxTurns 1 (run.log run.runConfig run.initial) with
    | mk result s =>
    rw [hloop] at hok hreason
    dsimp only at hok hreason ⊢
    cases hclose : run.host.closeClient with
    | error e =>
      rw [hclose] at hok
      cases hok
    | ok u =>
      rw [hclose] at hok hreason
      cases result with
      | error e => cases hok
      | ok u => exact loop_tape hcapture _ 1 hloop hreason hstart

/-- The final notice of a session that does not raise is one line. -/
theorem finalNotice_log (hcapture : run.settings.captureRequests = true)
    (hok : (run.finalNotice s).1 = .ok ()) :
    ∃ notice, (run.finalNotice s).2 = run.log (("type", .str "session_final") :: notice) s := by
  obtain ⟨on, hon, -⟩ := captured_settings hcapture
  unfold finalNotice session at hok ⊢
  rw [hon] at hok ⊢
  dsimp only [Option.map_some] at hok ⊢
  cases hopen : run.host.openNotice with
  | error e =>
    rw [hopen] at hok
    cases hok
  | ok u =>
    cases hclose : run.host.closeNotice with
    | error e =>
      rw [hopen, hclose] at hok
      cases hok
    | ok u =>
      cases hnotice : run.finishSession with
      | error e =>
        rw [hopen, hclose, hnotice] at hok
        cases hok
      | ok notice => exact ⟨notice, rfl⟩

theorem Tape.summarize (h : Tape s.trace bodies) :
    Tape (run.summarize s).trace (bodies ++ [("type", .str "task_summary") :: run.summary s]) := by
  have htrace : (run.summarize s).trace = s.trace ++
      [run.stamp s.trace.length (("type", .str "task_summary") :: run.summary s)] := rfl
  rw [htrace]
  exact h.append (.cons (fun _ hid hms => run.lookup_stamp _ _ hid hms) .nil)

theorem lookup_stopReason (run : AgentRun) (s : AgentState) :
    (run.summary s).lookup "stop_reason" = some (.str s.stopReason) := rfl

/-- A run that raises nothing is summarised after its notice. -/
theorem execute_summarised (hok : run.execute.1 = .ok ()) :
    (run.finalNotice run.handled.2).1 = .ok () ∧
      run.execute = (run.handled.1, run.summarize (run.finalNotice run.handled.2).2) := by
  have hconf : run.configured = true := by
    by_contra hconf
    rw [execute, if_neg hconf] at hok
    cases hok
  have hnotice : NoticePasses run := by
    by_contra hraised
    have hnot : (run.finalNotice run.handled.2).1 ≠ .ok () :=
      fun h => hraised (finalNotice_ok_iff.1 h)
    rw [execute, if_pos hconf] at hok
    unfold finish at hok
    dsimp only at hok
    split at hok
    · cases hok
    · rename_i s heq
      exact hnot (congrArg Prod.fst heq)
  exact ⟨finalNotice_ok_iff.2 hnotice, execute_of_notice hconf hnotice⟩

/-- **The trace of a captured run that answers**: its configuration, its turns, the notice that
its session ended and the summary. -/
theorem execute_tape (hcapture : run.settings.captureRequests = true) (hfresh : run.older = [])
    (hok : run.execute.1 = .ok ()) (hreason : run.execute.2.stopReason = "no_tool_calls") :
    ∃ turns notice summary, Recorded run 1 turns ∧
      run.execute.2.requests = turns.map (·.messages) ∧
      Tape run.execute.2.trace (run.runConfig :: turns.flatMap (·.lines run) ++
        [("type", .str "session_final") :: notice, ("type", .str "task_summary") :: summary]) ∧
      summary.lookup "stop_reason" = some (.str "no_tool_calls") := by
  obtain ⟨hnoticed, hexecute⟩ := execute_summarised hok
  obtain ⟨notice, hnotice⟩ := finalNotice_log hcapture hnoticed
  rw [hexecute, hnotice] at hok hreason ⊢
  obtain ⟨turns, hturns, hrequests, htape⟩ := handled_tape hcapture hfresh hok hreason
  have hlogged : Tape (run.log (("type", .str "session_final") :: notice) run.handled.2).trace _ :=
    htape.log _
  generalize hs : run.log (("type", .str "session_final") :: notice) run.handled.2 = s
    at hlogged hreason ⊢
  have hsummarised : Tape (run.summarize s).trace _ := hlogged.summarize
  rw [List.append_assoc] at hsummarised
  refine ⟨turns, notice, run.summary s, hturns, ?_, hsummarised, ?_⟩
  · rw [← hrequests]
    exact hs ▸ rfl
  · have hstop : s.stopReason = "no_tool_calls" := hreason
    rw [lookup_stopReason, hstop]

end ReedCode.Replay
