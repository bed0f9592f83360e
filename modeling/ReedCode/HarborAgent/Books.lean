import ReedCode.HarborAgent.Changes
import ReedCode.HarborAgent.Report

/-!
# The books of a run

What the trace says about a run, at every point of it, and how the loop ended.

* `Books` — since the run began, the trace has one `inference` line per model call and one
  `tool` line per tool call, the totals are folds over the former, and no summary is written;
* `Worked`, `Stops`, `LoopEnded` — what the replies make of the turns and of the loop;
* `loop_books`, `handled_books` — books and ending over the turns, up to the `finally` clause.
-/

set_option autoImplicit false

namespace ReedCode.HarborAgent

open AgentRun

/-! ## Lines by type -/

theorem ofType_append (name : String) (events more : List Fields) :
    ofType name (events ++ more) = ofType name events ++ ofType name more :=
  List.filter_append _ _

theorem get_type (line : Fields) : get line "type" = (kind line).getD .null := rfl

theorem get_stamp {run : AgentRun} (line : Nat) (event : Fields) {key : String}
    (hid : key ≠ "session_id") (hms : key ≠ "elapsed_ms") :
    get (run.stamp line event) key = get event key :=
  congrArg (fun found => found.getD .null) (run.lookup_stamp line event hid hms)

theorem ofType_eq_nil {name : String} {events : List Fields}
    (h : ∀ line ∈ events, kind line ≠ some (.str name)) : ofType name events = [] := by
  refine List.filter_eq_nil_iff.2 fun line hline htype => ?_
  have hget := eq_of_beq htype
  rw [get_type] at hget
  cases hkind : kind line with
  | none => simp [hkind] at hget
  | some value =>
    rw [hkind] at hget
    exact h line hline (hkind.trans (congrArg some hget))

theorem ofType_singleton {name : String} {line : Fields} (h : kind line = some (.str name)) :
    ofType name [line] = [line] :=
  List.filter_eq_self.2 fun event hevent => by
    rw [List.mem_singleton.1 hevent, get_type, h]
    exact beq_self_eq_true _

/-! ## The invariant -/

/-- An `inference` line: its place in the trace, its turn and its reply. -/
structure InferenceEntry where
  line : Nat
  turn : Nat
  response : ModelResponse

def InferenceEntry.fields (run : AgentRun) (e : InferenceEntry) : Fields :=
  run.stamp e.line (run.inferenceFields e.turn e.response)

/-- A `tool` line: its place in the trace, its call and the result. -/
structure ToolEntry where
  line : Nat
  turn : Nat
  index : Nat
  call : FunctionCall
  result : ToolObservation

def ToolEntry.fields (run : AgentRun) (e : ToolEntry) : Fields :=
  run.stamp e.line (run.toolFields e.turn e.index e.call e.result)

/-- A usage field summed over the replies; unknown once one is. -/
def totalUsage (field : Usage → Option Int) (replies : List InferenceEntry) : Option Int :=
  (replies.map fun e => field e.response.usage).foldl addUsage (some 0)

theorem totalUsage_concat (field : Usage → Option Int) (replies : List InferenceEntry)
    (e : InferenceEntry) : totalUsage field (replies ++ [e]) =
      addUsage (totalUsage field replies) (field e.response.usage) := by
  unfold totalUsage
  rw [List.map_append, List.foldl_append]
  rfl

/-- **The books of a run.** -/
structure Books (run : AgentRun) (s : AgentState) (replies : List InferenceEntry)
    (tools : List ToolEntry) : Prop where
  lines : ∃ mine, s.trace = run.older ++ mine ∧ ofType "task_summary" mine = [] ∧
    ofType "inference" mine = replies.map (·.fields run) ∧
    ofType "tool" mine = tools.map (·.fields run)
  modelCalls : s.modelCalls = replies.length
  toolCalls : s.toolCallsTotal = tools.length
  totalInput : s.totalInput = totalUsage Usage.inputTokens replies
  totalCached : s.totalCached = totalUsage Usage.cachedTokens replies
  totalOutput : s.totalOutput = totalUsage Usage.outputTokens replies

variable {run : AgentRun} {s s' : AgentState} {replies : List InferenceEntry}
  {tools : List ToolEntry}

/-- What the books are about. -/
def AgentState.ledger (s : AgentState) :
    List Fields × Nat × Nat × Option Int × Option Int × Option Int :=
  (s.trace, s.modelCalls, s.toolCallsTotal, s.totalInput, s.totalCached, s.totalOutput)

/-- A step that touches nothing of them keeps them. -/
theorem Books.same (h : Books run s replies tools) (hs : s'.ledger = s.ledger) :
    Books run s' replies tools := by
  simp only [AgentState.ledger, Prod.mk.injEq] at hs
  obtain ⟨htrace, hcalls, htools, hinput, hcached, houtput⟩ := hs
  exact ⟨htrace ▸ h.lines, hcalls ▸ h.modelCalls, htools ▸ h.toolCalls, hinput ▸ h.totalInput,
    hcached ▸ h.totalCached, houtput ▸ h.totalOutput⟩

/-- Notes leave the books as they are. -/
theorem Books.noted (h : Books run s replies tools) (hn : Noted s s') :
    Books run s' replies tools := by
  obtain ⟨notes, hnotes, rfl⟩ := hn
  obtain ⟨mine, htrace, hsummary, hinference, htool⟩ := h.lines
  refine ⟨⟨mine ++ notes, ?_, ?_, ?_, ?_⟩, h.modelCalls, h.toolCalls, h.totalInput,
    h.totalCached, h.totalOutput⟩
  · change s.trace ++ notes = _
    rw [htrace, List.append_assoc]
  · rw [ofType_append, hsummary, ofType_eq_nil fun line hline => (hnotes line hline).2.2]
    rfl
  · rw [ofType_append, hinference, ofType_eq_nil fun line hline => (hnotes line hline).1,
      List.append_nil]
  · rw [ofType_append, htool, ofType_eq_nil fun line hline => (hnotes line hline).2.1,
      List.append_nil]

theorem kind_inferenceFields (turn : Nat) (response : ModelResponse) :
    kind (run.inferenceFields turn response) = some (.str "inference") := rfl

theorem kind_toolFields (turn index : Nat) (call : FunctionCall) (result : ToolObservation) :
    kind (run.toolFields turn index call result) = some (.str "tool") := rfl

/-- A reply is one entry of the books. -/
theorem Books.recordReply (h : Books run s replies tools) (turn : Nat)
    (response : ModelResponse) :
    Books run (run.recordReply turn response s)
      (replies ++ [⟨s.trace.length, turn, response⟩]) tools := by
  obtain ⟨notes, hnotes, hrecord⟩ := recordReply_eq run turn response s
  obtain ⟨mine, htrace, hsummary, hinference, htool⟩ := h.lines
  obtain ⟨line, hline⟩ : ∃ line, run.stamp s.trace.length
      (run.inferenceFields turn response) = line := ⟨_, rfl⟩
  have hkind : kind line = some (.str "inference") := by
    rw [← hline, kind_stamp, kind_inferenceFields]
  have hbooks : Books run { s with
      modelCalls := s.modelCalls + 1
      modelMs := s.modelMs + run.host.latency turn
      totalInput := addUsage s.totalInput response.usage.inputTokens
      totalCached := addUsage s.totalCached response.usage.cachedTokens
      totalOutput := addUsage s.totalOutput response.usage.outputTokens
      trace := s.trace ++ [line]
      context := { s.context with
        nInputTokens := addUsage s.totalInput response.usage.inputTokens
        nCacheTokens := addUsage s.totalCached response.usage.cachedTokens
        nOutputTokens := addUsage s.totalOutput response.usage.outputTokens } }
      (replies ++ [⟨s.trace.length, turn, response⟩]) tools := by
    refine ⟨⟨mine ++ [line], ?_, ?_, ?_, ?_⟩, ?_, h.toolCalls, ?_, ?_, ?_⟩
    · rw [← List.append_assoc, ← htrace]
    · rw [ofType_append, hsummary, ofType_eq_nil]
      · rfl
      · intro event hevent
        rw [List.mem_singleton.1 hevent, hkind]
        decide
    · rw [ofType_append, hinference, ofType_singleton hkind, List.map_append, ← hline]
      rfl
    · rw [ofType_append, htool, ofType_eq_nil, List.append_nil]
      intro event hevent
      rw [List.mem_singleton.1 hevent, hkind]
      decide
    · rw [List.length_append, ← h.modelCalls]
      rfl
    · rw [totalUsage_concat, ← h.totalInput]
    · rw [totalUsage_concat, ← h.totalCached]
    · rw [totalUsage_concat, ← h.totalOutput]
  refine hbooks.noted ⟨notes, hnotes, ?_⟩
  rw [hrecord, hline, List.append_cons]

/-- So is a tool call. -/
theorem Books.logTool (h : Books run s replies tools) (turn index : Nat) (call : FunctionCall)
    (result : ToolObservation) (failures : Nat) (ms : Rat) :
    Books run (run.log (run.toolFields turn index call result) { s with
        toolCallsTotal := s.toolCallsTotal + 1
        toolFailures := failures
        toolMs := ms })
      replies (tools ++ [⟨s.trace.length, turn, index, call, result⟩]) := by
  obtain ⟨mine, htrace, hsummary, hinference, htool⟩ := h.lines
  obtain ⟨line, hline⟩ : ∃ line, run.stamp s.trace.length
      (run.toolFields turn index call result) = line := ⟨_, rfl⟩
  have hkind : kind line = some (.str "tool") := by
    rw [← hline, kind_stamp, kind_toolFields]
  refine ⟨⟨mine ++ [line], ?_, ?_, ?_, ?_⟩, h.modelCalls, ?_, h.totalInput, h.totalCached,
    h.totalOutput⟩
  · rw [← List.append_assoc, ← htrace, ← hline]
    rfl
  · rw [ofType_append, hsummary, ofType_eq_nil]
    · rfl
    · intro event hevent
      rw [List.mem_singleton.1 hevent, hkind]
      decide
  · rw [ofType_append, hinference, ofType_eq_nil, List.append_nil]
    intro event hevent
    rw [List.mem_singleton.1 hevent, hkind]
    decide
  · rw [ofType_append, htool, ofType_singleton hkind, List.map_append, ← hline]
    rfl
  · rw [List.length_append, ← h.toolCalls]
    rfl

theorem runTools_books (run : AgentRun) (turn : Nat) : ∀ (calls : List FunctionCall)
    (index : Nat) (s : AgentState) (tools : List ToolEntry), Books run s replies tools →
      ∃ tools', Books run (run.runTools turn index calls s).2 replies tools'
  | [], _, _, tools, h => ⟨tools, h⟩
  | call :: calls, index, s, tools, h => by
    have hstart : Noted s (run.boundary "tool_start" [("turn", .int turn),
      ("call_id", .str call.callId), ("tool", .str call.name)] s) := noted_boundary _ _
    have hbegun := h.noted hstart
    obtain ⟨notes, -, hstart⟩ := hstart
    unfold runTools
    rw [hstart] at hbegun ⊢
    have hcounted : Books run { s with
        trace := s.trace ++ notes
        executed := s.executed ++ [(turn, call)] } replies tools :=
      hbegun.same rfl
    simp only
    split
    · exact ⟨tools, hcounted⟩
    · rename_i result _
      have hlogged := hcounted.logTool turn index call result
        (s.toolFailures + if result.success then 0 else 1)
        (s.toolMs + run.host.toolTime turn index)
      exact runTools_books run turn calls (index + 1) _ _ (hlogged.same rfl)

/-! ## Turns -/

/-- The reply of a turn completed within its limits and calls tools. -/
def Worked (run : AgentRun) (n : Nat) : Prop :=
  ∃ response, run.reply n = .ok response ∧
    (responseTermination response).outputLimitHit = false ∧
    response.status = some "completed" ∧ response.toolCalls ≠ []

/-- The reply of a turn ends the loop, and why. -/
inductive Stops (run : AgentRun) (n : Nat) : String → Prop
  | limit {response : ModelResponse} (hreply : run.reply n = .ok response)
      (hhit : (responseTermination response).outputLimitHit = true) :
      Stops run n "max_output_tokens"
  | empty {response : ModelResponse} (hreply : run.reply n = .ok response)
      (hhit : (responseTermination response).outputLimitHit = false)
      (hstatus : response.status = some "completed") (hcalls : response.toolCalls = [])
      (hblank : blank response.outputText = true) : Stops run n "empty_model_response"
  | answered {response : ModelResponse} (hreply : run.reply n = .ok response)
      (hhit : (responseTermination response).outputLimitHit = false)
      (hstatus : response.status = some "completed") (hcalls : response.toolCalls = [])
      (hblank : blank response.outputText = false) : Stops run n "no_tool_calls"

/-- The books after a model call, and whose reply it brought. -/
theorem Books.called {turn : Nat} {result : Except PyException ModelResponse}
    (h : Books run s replies tools) (hc : Called run turn s result s') :
    Books run s' replies tools ∧
      ∀ response, result = .ok response → run.reply turn = .ok response := by
  cases hc with
  | unsent hs => exact ⟨h.noted hs, fun response hr => by cases hr⟩
  | sent messages _ hreply hs =>
    have hsent : Books run { s with
        requests := s.requests ++ messages, attempts := s.attempts + 1 } replies tools :=
      h.same rfl
    exact ⟨hsent.noted hs, hreply⟩

/-- What a turn leaves of the books, and how it ended. -/
structure TurnBooks (run : AgentRun) (n : Nat) (turnEnd : TurnEnd) (s' : AgentState) : Prop where
  books : ∃ replies tools, Books run s' replies tools ∧
    ((∀ e, turnEnd ≠ .raised e) → replies ≠ [])
  stopped : turnEnd = .stopped → Stops run n s'.stopReason
  next : turnEnd = .next → Worked run n

/-- **One turn** keeps the books. -/
theorem turn_books (h : Books run s replies tools) (n : Nat) :
    TurnBooks run n (run.turn n s).1 (run.turn n s).2 := by
  have hstart : Noted s (run.boundary "model_start" [("turn", .int n)] s) := noted_boundary _ _
  have hcall := (h.noted hstart).called (called n)
  unfold turn
  simp only
  split
  · rename_i e s₁ hmodel
    rw [hmodel] at hcall
    exact ⟨⟨replies, tools, hcall.1, fun hne => absurd rfl (hne e)⟩, fun hs => (by cases hs),
      fun hn => (by cases hn)⟩
  rename_i response s₁ hmodel
  rw [hmodel] at hcall
  have hreply := hcall.2 response rfl
  have hbooks := hcall.1.recordReply n response
  have hsome : replies ++ [⟨s₁.trace.length, n, response⟩] ≠ [] :=
    List.append_ne_nil_of_right_ne_nil _ (List.cons_ne_nil _ _)
  split
  · rename_i hhit
    exact ⟨⟨_, tools, hbooks.same rfl, fun _ => hsome⟩, fun _ => .limit hreply hhit,
      fun hn => (by cases hn)⟩
  rename_i hhit
  rw [Bool.not_eq_true] at hhit
  split
  · exact ⟨⟨_, tools, hbooks, fun hne => absurd rfl (hne _)⟩, fun hs => (by cases hs),
      fun hn => (by cases hn)⟩
  rename_i hstatus
  rw [not_not] at hstatus
  have hextended : Books run { run.recordReply n response s₁ with
      history := (run.recordReply n response s₁).history ++ response.output.map .output }
      (replies ++ [⟨s₁.trace.length, n, response⟩]) tools :=
    hbooks.same rfl
  split
  · rename_i hcalls
    split
    · rename_i hblank
      exact ⟨⟨_, tools, hextended.same rfl, fun _ => hsome⟩,
        fun _ => .empty hreply hhit hstatus hcalls hblank, fun hn => (by cases hn)⟩
    · rename_i hblank
      rw [Bool.not_eq_true] at hblank
      split
      · exact ⟨⟨_, tools, hextended.same rfl,
          fun hne => absurd rfl (hne _)⟩, fun hs => (by cases hs), fun hn => (by cases hn)⟩
      · exact ⟨⟨_, tools, hextended.same rfl, fun _ => hsome⟩,
          fun _ => .answered hreply hhit hstatus hcalls hblank, fun hn => (by cases hn)⟩
  · rename_i call calls hcalls
    have hpending : Noted { run.recordReply n response s₁ with
        history := (run.recordReply n response s₁).history ++ response.output.map .output }
      (run.boundary "tools_start" [("turn", .int n),
        ("pending_calls", .int (call :: calls).length)] _) := noted_boundary _ _
    have hbegun := hextended.noted hpending
    obtain ⟨tools', htools⟩ := runTools_books run n (call :: calls) 0 _ tools hbegun
    split
    · rename_i e s₃ hrun
      rw [hrun] at htools
      exact ⟨⟨_, tools', htools, fun hne => absurd rfl (hne e)⟩, fun hs => (by cases hs),
        fun hn => (by cases hn)⟩
    · rename_i s₃ hrun
      rw [hrun] at htools
      refine ⟨⟨_, tools', htools.noted (noted_boundary _ _), fun _ => hsome⟩,
        fun hs => (by cases hs), fun _ => ⟨response, hreply, hhit, hstatus, ?_⟩⟩
      rw [hcalls]
      exact List.cons_ne_nil _ _

/-! ## The loop -/

/-- How the loop ends when nothing is raised: a reply stops it after turns that all worked, or
every turn worked. -/
def LoopEnded (run : AgentRun) (reason : String) : Prop :=
  (∃ n, 1 ≤ n ∧ n ≤ run.settings.maxTurns ∧ (∀ m, 1 ≤ m → m < n → Worked run m) ∧
    Stops run n reason) ∨
  ((∀ m, 1 ≤ m → m ≤ run.settings.maxTurns → Worked run m) ∧ reason = "max_turns")

/-- The stop reason of an outcome of the loop. -/
def HowEnded (run : AgentRun) : Except PyException Unit → String → Prop
  | .ok (), reason => LoopEnded run reason
  | .error .cancelled, reason => reason = "cancelled_or_task_timeout"
  | .error (.error _), reason => reason = "error"

/-- **The turns that are left** keep the books, and the stop reason says how they ended. -/
theorem loop_books : ∀ (left n : Nat) (s : AgentState) (replies : List InferenceEntry)
    (tools : List ToolEntry), Books run s replies tools → 1 ≤ n →
      n + left = run.settings.maxTurns + 1 → (∀ m, 1 ≤ m → m < n → Worked run m) →
      (1 < n → replies ≠ []) →
      ∃ replies' tools', Books run (run.loop left n s).2 replies' tools' ∧
        ((run.loop left n s).1 = .ok () →
          replies' ≠ [] ∧ LoopEnded run (run.loop left n s).2.stopReason)
  | 0, n, s, replies, tools, h, _, hlast, hworked, hsome => by
    have hpos := run.settings.limits_pos.1
    refine ⟨replies, tools, h.same rfl, fun _ => ⟨hsome (by omega), Or.inr ⟨?_, rfl⟩⟩⟩
    exact fun m hm hle => hworked m hm (by omega)
  | left + 1, n, s, replies, tools, h, hn, hlast, hworked, hsome => by
    have hturn := turn_books h n
    unfold loop
    split
    · rename_i e s' heq
      rw [heq] at hturn
      obtain ⟨replies', tools', hbooks, -⟩ := hturn.books
      exact ⟨replies', tools', hbooks, fun hok => (by cases hok)⟩
    · rename_i s' heq
      rw [heq] at hturn
      obtain ⟨replies', tools', hbooks, hreplies⟩ := hturn.books
      have hstops : Stops run n s'.stopReason := hturn.stopped rfl
      exact ⟨replies', tools', hbooks, fun _ => ⟨hreplies fun e he => (by cases he),
        Or.inl ⟨n, hn, by omega, hworked, hstops⟩⟩⟩
    · rename_i s' heq
      rw [heq] at hturn
      obtain ⟨replies', tools', hbooks, hreplies⟩ := hturn.books
      refine loop_books left (n + 1) s' replies' tools' hbooks (by omega) (by omega) ?_
        fun _ => hreplies fun e he => (by cases he)
      intro m hm hlt
      rcases Nat.lt_succ_iff_lt_or_eq.1 hlt with hold | rfl
      · exact hworked m hm hold
      · exact hturn.next rfl

theorem books_start (run : AgentRun) : Books run (run.log run.runConfig run.initial) [] [] := by
  have hinitial : Books run run.initial [] [] :=
    ⟨⟨[], (List.append_nil _).symm, rfl, rfl, rfl⟩, rfl, rfl, rfl, rfl, rfl⟩
  exact hinitial.noted (noted_log (isNote_of_kind rfl (by decide)))

/-- **Before the `finally` clause**: the books are kept and the stop reason says how the loop
ended. -/
theorem handled_books (run : AgentRun) :
    ∃ replies tools, Books run run.handled.2 replies tools ∧
      (run.handled.1 = .ok () → replies ≠ []) ∧
      HowEnded run run.handled.1 run.handled.2.stopReason := by
  have hbody : ∃ replies tools,
      Books run (run.body (run.log run.runConfig run.initial)).2 replies tools ∧
      ((run.body (run.log run.runConfig run.initial)).1 = .ok () → replies ≠ [] ∧
        LoopEnded run (run.body (run.log run.runConfig run.initial)).2.stopReason) := by
    have hstart := books_start run
    unfold body
    split
    · exact ⟨[], [], hstart, fun hok => (by cases hok)⟩
    · obtain ⟨replies, tools, hbooks, hended⟩ := loop_books run.settings.maxTurns 1 _ [] [] hstart
        (Nat.le_refl _) (Nat.add_comm _ _) (fun m hm hlt => absurd hlt (by omega))
        (fun hlt => absurd hlt (Nat.lt_irrefl _))
      simp only
      split
      · exact ⟨replies, tools, hbooks, fun hok => (by cases hok)⟩
      · exact ⟨replies, tools, hbooks, hended⟩
  obtain ⟨replies, tools, hbooks, hended⟩ := hbody
  unfold handled
  cases hresult : run.body (run.log run.runConfig run.initial) with
  | mk result s =>
  rw [hresult] at hbooks hended
  match result with
  | .ok () => exact ⟨replies, tools, hbooks, fun _ => (hended rfl).1, (hended rfl).2⟩
  | .error .cancelled => exact ⟨replies, tools, hbooks.same rfl, fun hok => (by cases hok), rfl⟩
  | .error (.error name) =>
    have herror : Books run { s with stopReason := "error" } replies tools := hbooks.same rfl
    exact ⟨replies, tools, herror.noted (noted_log (isNote_of_kind rfl (by decide))),
      fun hok => (by cases hok), rfl⟩

end ReedCode.HarborAgent
