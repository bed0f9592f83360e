import ReedCode.Replay.Tape
import Mathlib.Algebra.Order.BigOperators.Group.List
import Mathlib.Tactic.Positivity

/-!
# A captured run is replayed as it was sent

What `capture_workload` makes of the trace of a run of the agent.

* `Reel`, `execute_reel` — the lines of a captured run, type by type;
* `captureWorkload_reel` — what is read of them: one turn per request, with the messages sent,
  the message that came back, and the time the tools took before it;
* `capture_replays` — a trace becomes a workload exactly when the run answered within a token
  budget, and the workload then replays, turn by turn, the requests of the run.
-/

set_option autoImplicit false

namespace ReedCode.Replay

open HarborAgent AgentRun

variable {run : AgentRun}

/-! ## Lines by type -/

theorem ofType_cons (name : String) (line : Fields) (lines : List Fields) :
    ofType name (line :: lines) =
      if kind line = some (.str name) then line :: ofType name lines else ofType name lines := by
  unfold ofType
  rw [List.filter_cons, get_type]
  cases hkind : kind line with
  | none => simp
  | some value => simp

@[simp] theorem ofType_nil (name : String) : ofType name [] = [] := rfl

theorem ofType_flatMap {α : Type} (name : String) (f : α → List Fields) (items : List α) :
    ofType name (items.flatMap f) = items.flatMap fun item => ofType name (f item) :=
  List.filter_flatMap

/-- The `tool` lines of a turn, from the call `index` on. -/
def toolEvents (run : AgentRun) (number : Nat) :
    Nat → List (FunctionCall × ToolObservation) → List Fields
  | _, [] => []
  | index, (call, result) :: results =>
    run.toolFields number index call result :: toolEvents run number (index + 1) results

section Kinds

variable (number : Nat)

@[simp] theorem kind_lifecycle (phase : String) (fields : Fields) :
    kind (lifecycle phase fields) = some (.str "lifecycle") := rfl

@[simp] theorem kind_requestLine (messages : List Value) :
    kind (requestLine run number messages) = some (.str "request") := rfl

@[simp] theorem kind_messageLine (message : Fields) :
    kind (messageLine number message) = some (.str "assistant_message") := rfl

@[simp] theorem kind_inference (response : ModelResponse) :
    kind (run.inferenceFields number response) = some (.str "inference") := rfl

@[simp] theorem kind_tool (index : Nat) (call : FunctionCall) (result : ToolObservation) :
    kind (run.toolFields number index call result) = some (.str "tool") := rfl

@[simp] theorem kind_runConfig : kind run.runConfig = some (.str "run_config") := rfl

end Kinds

theorem ofType_toolLines {name : String} (hname : name ≠ "lifecycle") (number : Nat) :
    ∀ (results : List (FunctionCall × ToolObservation)) (index : Nat),
      ofType name (toolLines run number index results) =
        if name = "tool" then toolEvents run number index results else []
  | [], index => by
    rw [toolLines, toolEvents, ite_self]
    rfl
  | (call, result) :: results, index => by
    have hrest := ofType_toolLines hname number results (index + 1)
    rw [toolLines, toolEvents]
    by_cases htool : name = "tool"
    · subst htool
      simpa [ofType_cons] using hrest
    · simpa [ofType_cons, htool, hname.symm, Ne.symm htool] using hrest

theorem ofType_toolPhase {name : String} (hname : name ≠ "lifecycle") (number : Nat)
    (results : List (FunctionCall × ToolObservation)) :
    ofType name (toolPhase run number results) =
      if name = "tool" then toolEvents run number 0 results else [] := by
  cases results with
  | nil =>
    rw [toolPhase, toolEvents, ite_self]
    rfl
  | cons first results =>
    have hlast : ofType name [lifecycle "tools_complete" [("turn", .int number)]] = [] := by
      simp [ofType_cons, hname.symm]
    rw [toolPhase, ofType_append, ofType_append, ofType_toolLines hname, hlast, List.append_nil]
    · simp [ofType_cons, hname.symm]
    · exact fun h => (by cases h)

/-- The lines of a turn of one type, given what they are in front of its tools. -/
theorem ofType_lines (t : TurnRecord) {name : String} (hname : name ≠ "lifecycle") :
    ofType name (t.lines run) = ofType name [requestLine run t.number t.messages,
        run.inferenceFields t.number t.response, messageLine t.number t.message] ++
      if name = "tool" then toolEvents run t.number 0 t.results else [] := by
  rw [TurnRecord.lines, ofType_append, ofType_toolPhase hname]
  simp [ofType_cons, hname.symm]

/-! ## The reel of a run -/

/-- The lines of a captured run, type by type. -/
structure Reel (run : AgentRun) (trace : List Fields) (turns : List TurnRecord) : Prop where
  typed : ∀ line ∈ trace, kind line ≠ none
  config : Tape (ofType "run_config" trace) [run.runConfig]
  request : Tape (ofType "request" trace) (turns.map fun t => requestLine run t.number t.messages)
  inference : Tape (ofType "inference" trace)
    (turns.map fun t => run.inferenceFields t.number t.response)
  message : Tape (ofType "assistant_message" trace)
    (turns.map fun t => messageLine t.number t.message)
  tool : Tape (ofType "tool" trace) (turns.flatMap fun t => toolEvents run t.number 0 t.results)
  summary : ∃ summary, Tape (ofType "task_summary" trace)
    [("type", .str "task_summary") :: summary] ∧
      summary.lookup "stop_reason" = some (.str "no_tool_calls")

theorem kind_toolLines (number : Nat) : ∀ (results : List (FunctionCall × ToolObservation))
    (index : Nat), ∀ line ∈ toolLines run number index results, kind line ≠ none
  | [], _, line, hline => by cases hline
  | (call, result) :: results, index, line, hline => by
    rw [toolLines, List.mem_append, List.mem_pair] at hline
    rcases hline with (rfl | rfl) | hline
    · exact fun h => (by cases h)
    · exact fun h => (by cases h)
    · exact kind_toolLines number results (index + 1) line hline

theorem kind_lines (t : TurnRecord) : ∀ line ∈ t.lines run, kind line ≠ none := by
  intro line hline
  rw [TurnRecord.lines, List.mem_append] at hline
  rcases hline with hline | hline
  · simp only [List.mem_cons, List.not_mem_nil, or_false] at hline
    rcases hline with rfl | rfl | rfl | rfl <;> exact fun h => (by cases h)
  · cases hresults : t.results with
    | nil =>
      rw [hresults] at hline
      cases hline
    | cons first results =>
      rw [hresults, toolPhase, List.mem_append, List.mem_append] at hline
      · rcases hline with (hline | hline) | hline
        · rw [List.mem_singleton.1 hline]
          exact fun h => (by cases h)
        · exact kind_toolLines t.number _ 0 line hline
        · rw [List.mem_singleton.1 hline]
          exact fun h => (by cases h)
      · exact fun h => (by cases h)

/-- **The reel of a captured run that answers.** -/
theorem execute_reel (hcapture : run.settings.captureRequests = true) (hfresh : run.older = [])
    (hok : run.execute.1 = .ok ()) (hreason : run.execute.2.stopReason = "no_tool_calls") :
    ∃ turns, Recorded run 1 turns ∧ run.execute.2.requests = turns.map (·.messages) ∧
      Reel run run.execute.2.trace turns := by
  obtain ⟨turns, notice, summary, hturns, hrequests, htape, hstop⟩ :=
    execute_tape hcapture hfresh hok hreason
  have hnotice : kind (("type", .str "session_final") :: notice) = some (.str "session_final") :=
    rfl
  have hsummary : kind (("type", .str "task_summary") :: summary) = some (.str "task_summary") :=
    rfl
  have hname : ∀ {name : String}, name ≠ "lifecycle" → ofType name (run.runConfig ::
      turns.flatMap (·.lines run) ++ [("type", .str "session_final") :: notice,
        ("type", .str "task_summary") :: summary]) =
      ofType name [run.runConfig] ++ (turns.flatMap fun t => ofType name [requestLine run t.number
        t.messages, run.inferenceFields t.number t.response, messageLine t.number t.message] ++
          if name = "tool" then toolEvents run t.number 0 t.results else []) ++
        ofType name [("type", .str "session_final") :: notice,
          ("type", .str "task_summary") :: summary] := by
    intro name hname
    rw [← List.singleton_append, ofType_append, ofType_append, ofType_flatMap]
    simp only [ofType_lines _ hname]
  have hnone : (turns.flatMap fun _ => ([] : List Fields)) = [] := by simp
  have hmap : ∀ f : TurnRecord → Fields, (turns.flatMap fun t => [f t]) = turns.map f :=
    fun f => List.map_eq_flatMap.symm
  refine ⟨turns, hturns, hrequests, htape.typed ?_, ?_, ?_, ?_, ?_, ?_, summary, ?_, hstop⟩
  · intro line hline
    rw [List.cons_append, List.mem_cons, List.mem_append, List.mem_flatMap, List.mem_pair] at hline
    rcases hline with rfl | ⟨t, -, ht⟩ | rfl | rfl
    · exact fun h => (by cases h)
    · exact kind_lines t line ht
    · rw [hnotice]
      exact Option.some_ne_none _
    · rw [hsummary]
      exact Option.some_ne_none _
  · have hlines := htape.ofType "run_config"
    rw [hname (by decide)] at hlines
    simpa [ofType_cons, hnotice, hsummary, hnone, hmap] using hlines
  · have hlines := htape.ofType "request"
    rw [hname (by decide)] at hlines
    simpa [ofType_cons, hnotice, hsummary, hnone, hmap] using hlines
  · have hlines := htape.ofType "inference"
    rw [hname (by decide)] at hlines
    simpa [ofType_cons, hnotice, hsummary, hnone, hmap] using hlines
  · have hlines := htape.ofType "assistant_message"
    rw [hname (by decide)] at hlines
    simpa [ofType_cons, hnotice, hsummary, hnone, hmap] using hlines
  · have hlines := htape.ofType "tool"
    rw [hname (by decide)] at hlines
    simpa [ofType_cons, hnotice, hsummary, hnone, hmap] using hlines
  · have hlines := htape.ofType "task_summary"
    rw [hname (by decide)] at hlines
    simpa [ofType_cons, hnotice, hsummary, hnone, hmap] using hlines

/-! ## The lines of a turn -/

theorem pyEq_int (m n : Int) : (Value.int m).pyEq (.int n) = decide (m = n) := by
  rw [Bool.eq_iff_iff]
  simp [Value.pyEq, Value.norm]

theorem pyEq_turn (m n : Nat) : (Value.int m).pyEq (.int n) = decide (m = n) := by
  rw [pyEq_int, decide_eq_decide]
  exact Int.ofNat_inj

theorem Tape.forall_mem {lines bodies : List Fields} {P : Fields → Prop} (h : Tape lines bodies)
    (hP : ∀ line body, body ∈ bodies → Alike line body → P line) : ∀ line ∈ lines, P line := by
  induction h with
  | nil => exact fun line hline => (by cases hline)
  | @cons line body lines bodies hhead _ ih =>
    refine List.forall_mem_cons.2 ⟨hP line body List.mem_cons_self hhead, ih ?_⟩
    exact fun line body hbody => hP line body (List.mem_cons_of_mem _ hbody)

theorem Tape.singleton {lines : List Fields} {body : Fields} (h : Tape lines [body]) :
    ∃ line, lines = [line] ∧ Alike line body := by
  cases h with
  | cons hline hnil =>
    cases hnil
    exact ⟨_, rfl, hline⟩

/-- The turn with a number, among turns with different numbers. -/
theorem filter_number {turns : List TurnRecord} (hnodup : (turns.map (·.number)).Nodup)
    {t : TurnRecord} (ht : t ∈ turns) : turns.filter (fun u => u.number = t.number) = [t] := by
  induction turns with
  | nil => cases ht
  | cons u turns ih =>
    rw [List.map_cons, List.nodup_cons] at hnodup
    have hother : ∀ {v : TurnRecord}, v ∈ turns → u.number ≠ v.number := fun hv heq =>
      hnodup.1 (List.mem_map.2 ⟨_, hv, heq.symm⟩)
    rcases List.mem_cons.1 ht with rfl | ht
    · rw [List.filter_cons_of_pos (by simp), List.cons.injEq]
      refine ⟨rfl, List.filter_eq_nil_iff.2 fun v hv => ?_⟩
      simpa using fun heq => hother hv heq.symm
    · rw [List.filter_cons_of_neg (by simpa using hother ht)]
      exact ih hnodup.2 ht

/-- Of the lines with one line for every turn, the one of a turn. -/
theorem Tape.ofTurn {lines : List Fields} {turns : List TurnRecord} {f : TurnRecord → Fields}
    (h : Tape lines (turns.map f)) (hf : ∀ t, (f t).lookup "turn" = some (.int t.number))
    (hnodup : (turns.map (·.number)).Nodup) {t : TurnRecord} (ht : t ∈ turns) :
    ∃ line, lines.filterM (ofTurn (.int t.number)) = .ok [line] ∧ Alike line (f t) := by
  have htest : ∀ line ∈ lines, Replay.ofTurn (.int t.number) line =
      .ok (decide (HarborAgent.get line "turn" = .int t.number)) := by
    refine h.forall_mem fun line body hbody hline => ?_
    obtain ⟨u, -, rfl⟩ := List.mem_map.1 hbody
    have hturn : line.lookup "turn" = some (.int u.number) :=
      (hline "turn" (by decide) (by decide)).trans (hf u)
    simp [Replay.ofTurn, require, HarborAgent.get, getOr, hturn, bind, Except.bind, pure,
      Except.pure, pyEq_turn]
  have hkept : Tape (lines.filter fun line =>
      decide (HarborAgent.get line "turn" = .int t.number)) [f t] := by
    have hfilter : ((turns.map f).filter fun line =>
        decide (HarborAgent.get line "turn" = .int t.number)) = [f t] := by
      rw [List.filter_map, ← List.map_singleton, ← filter_number hnodup ht]
      refine congrArg (List.map f) (List.filter_congr fun u _ => ?_)
      simp [HarborAgent.get, getOr, hf u]
    rw [← hfilter]
    refine List.rel_filter (fun line body hline => ?_) h
    have hget : HarborAgent.get line "turn" = HarborAgent.get body "turn" :=
      hline.get (by decide) (by decide)
    simp only [hget]
  obtain ⟨line, hone, hline⟩ := hkept.singleton
  exact ⟨line, by rw [Except.filterM_eq_ok htest, hone], hline⟩

/-! ## Waits -/

/-- `sum` of durations. -/
def waitValue : List Rat → Value
  | [] => .int 0
  | durations => .float durations.sum

theorem waitValue_concat (durations : List Rat) (d : Rat) :
    arithmetic (· + ·) (· + ·) (waitValue durations) (.float d) =
      .ok (waitValue (durations ++ [d])) := by
  cases durations with
  | nil => simp [waitValue, arithmetic, integer?, number?]
  | cons first rest => simp [waitValue, arithmetic, integer?, number?, add_assoc]

/-- A `tool` line of a turn, with its duration. -/
def Lasted (line : Fields) (entry : Nat × Rat) : Prop :=
  line.lookup "turn" = some (.int entry.1) ∧ line.lookup "duration_ms" = some (.float entry.2)

/-- The durations of the calls of a turn. -/
def durations (run : AgentRun) (number calls : Nat) : List Rat :=
  (List.range' 0 calls).map fun index => roundTo 2 (run.host.toolTime number index)

theorem lasted_toolEvents (number : Nat) : ∀ (results : List (FunctionCall × ToolObservation))
    (index : Nat) {lines : List Fields}, Tape lines (toolEvents run number index results) →
      List.Forall₂ Lasted lines ((List.range' index results.length).map fun index =>
        (number, roundTo 2 (run.host.toolTime number index)))
  | [], index, _, h => by
    cases h
    exact .nil
  | (call, result) :: results, index, _, h => by
    cases h with
    | cons hline hrest =>
      rw [List.length_cons, List.range'_succ, List.map_cons]
      refine .cons ⟨?_, ?_⟩ (lasted_toolEvents number results (index + 1) hrest)
      · rw [hline "turn" (by decide) (by decide)]
        rfl
      · rw [hline "duration_ms" (by decide) (by decide)]
        rfl

/-- The durations of the turns. -/
def allDurations (run : AgentRun) (turns : List TurnRecord) : List (Nat × Rat) :=
  turns.flatMap fun t => (durations run t.number t.results.length).map fun d => (t.number, d)

theorem lasted_flatMap : ∀ (turns : List TurnRecord) {lines : List Fields},
    Tape lines (turns.flatMap fun t => toolEvents run t.number 0 t.results) →
      List.Forall₂ Lasted lines (allDurations run turns)
  | [], _, h => by
    cases h
    exact .nil
  | t :: turns, lines, h => by
    rw [List.flatMap_cons] at h
    have hfirst := lasted_toolEvents t.number t.results 0 (List.forall₂_take_append _ _ _ h)
    have hrest := lasted_flatMap turns (List.forall₂_drop_append _ _ _ h)
    rw [← List.take_append_drop (toolEvents run t.number 0 t.results).length lines, allDurations,
      List.flatMap_cons, durations, List.map_map]
    exact List.rel_append hfirst hrest

/-- The wait of a turn: the durations of the turn before. -/
theorem foldlM_addWait (k : Nat) : ∀ {lines : List Fields} {entries : List (Nat × Rat)},
    List.Forall₂ Lasted lines entries → ∀ before : List Rat,
      lines.foldlM (addWait (.int k)) (waitValue before) = .ok (waitValue (before ++
        (entries.filter fun entry => entry.1 + 1 = k).map Prod.snd))
  | _, _, .nil, before => by simp [pure, Except.pure]
  | line :: lines, (n, d) :: entries, .cons hline hrest, before => by
    have hprevious : (Value.int n).pyEq (.int ((k : Int) - 1)) = decide (n + 1 = k) := by
      rw [pyEq_int, decide_eq_decide]
      omega
    have hstep : addWait (.int k) (waitValue before) line =
        .ok (waitValue (before ++ if n + 1 = k then [d] else [])) := by
      unfold addWait require
      rw [hline.1, hline.2]
      simp only [bind, Except.bind, arithmetic, integer?, hprevious, decide_eq_true_eq]
      split
      · exact waitValue_concat before d
      · simp [pure, Except.pure]
    rw [List.foldlM_cons, hstep]
    refine (foldlM_addWait k hrest _).trans ?_
    by_cases hn : n + 1 = k
    · simp [hn]
    · simp [hn]

/-! ## The workload of a reel -/

/-- What the tools of turn `n` took, as the trace has it; there is no turn 0. -/
def toolWait (run : AgentRun) : Nat → Value
  | 0 => .int 0
  | n + 1 =>
    match run.reply (n + 1) with
    | .ok response => waitValue (durations run (n + 1) response.toolCalls.length)
    | .error _ => .null

/-- What is replayed of a request. -/
def replayFields (run : AgentRun) (messages : List Value) : Fields :=
  [("messages", .list messages),
      ("tools", .list (TOOLS.map fun tool => .dict [("type", .str "function"),
        ("function", .dict (tool.filter fun f => f.1 != "type"))])),
      ("tool_choice", .str "auto")] ++
    match run.settings.maxOutputTokens with
    | some limit => [("max_completion_tokens", .int limit)]
    | none => []

/-- The turn of a workload for the record of a turn. -/
def TurnRecord.captured (run : AgentRun) (t : TurnRecord) : Value :=
  .dict [("request", .dict (replayFields run t.messages)), ("wait_ms", toolWait run (t.number - 1)),
    ("expected_message", .dict t.message)]

theorem filter_capturedRequest (on : Bool) (session : String) (messages : List Value) :
    (capturedRequest (sentRequest run on session messages)).filter (fun f => f.1 != "model") =
      replayFields run messages := by
  unfold sentRequest replayFields
  cases run.settings.maxOutputTokens <;> rfl

theorem replayRequest_fields (on : Bool) (session : String) (messages : List Value) :
    replayRequest run.modelName on session (replayFields run messages) =
      sentRequest run on session messages := by
  unfold sentRequest replayFields replayRequest
  cases run.settings.maxOutputTokens <;> rfl

variable {turns : List TurnRecord}

theorem Recorded.nodup (h : Recorded run 1 turns) : (turns.map (·.number)).Nodup :=
  h.numbered ▸ List.nodup_range'

theorem Recorded.exists_number (h : Recorded run 1 turns) {n : Nat} (hn : 1 ≤ n)
    (hlast : n ≤ turns.length) : ∃ t ∈ turns, t.number = n := by
  have hmem : n ∈ turns.map (·.number) := by
    rw [h.numbered, List.mem_range'_1]
    omega
  exact List.mem_map.1 hmem

theorem Recorded.bounds (h : Recorded run 1 turns) {t : TurnRecord} (ht : t ∈ turns) :
    1 ≤ t.number ∧ t.number ≤ turns.length := by
  have hmem : t.number ∈ turns.map (·.number) := List.mem_map_of_mem ht
  rw [h.numbered, List.mem_range'_1] at hmem
  omega

theorem filter_allDurations (k : Nat) : ∀ turns : List TurnRecord,
    ((allDurations run turns).filter fun entry => entry.1 + 1 = k).map Prod.snd =
      (turns.filter fun u => u.number + 1 = k).flatMap fun u =>
        durations run u.number u.results.length
  | [] => rfl
  | u :: turns => by
    have hrest := filter_allDurations k turns
    unfold allDurations at hrest ⊢
    rw [List.flatMap_cons, List.filter_append, List.map_append, hrest, List.filter_map]
    by_cases hu : u.number + 1 = k
    · rw [List.filter_cons_of_pos (by simpa using hu), List.flatMap_cons,
        List.filter_eq_self.2 fun d _ => by simpa using hu, List.map_map]
      simp [Function.comp_def]
    · rw [List.filter_cons_of_neg (by simpa using hu),
        List.filter_eq_nil_iff.2 fun d _ => by simpa using hu]
      rfl

/-- The durations that count before a turn are those of the turn before. -/
theorem waitValue_allDurations (h : Recorded run 1 turns) {t : TurnRecord} (ht : t ∈ turns) :
    waitValue (((allDurations run turns).filter fun entry => entry.1 + 1 = t.number).map
      Prod.snd) = toolWait run (t.number - 1) := by
  rw [filter_allDurations]
  obtain ⟨hfirst, hlast⟩ := h.bounds ht
  obtain ⟨n, hn⟩ : ∃ n, t.number = n + 1 := ⟨t.number - 1, by omega⟩
  rw [hn, Nat.add_sub_cancel]
  cases n with
  | zero =>
    have hnone : turns.filter (fun u => u.number + 1 = 0 + 1) = [] := by
      refine List.filter_eq_nil_iff.2 fun u hu => ?_
      have hpos := (h.bounds hu).1
      simpa using Nat.ne_of_gt hpos
    rw [hnone]
    rfl
  | succ n =>
    obtain ⟨u, hu, hnumber⟩ := h.exists_number (Nat.le_add_left 1 n) (by omega)
    have hone : turns.filter (fun v => v.number + 1 = n + 1 + 1) = [u] := by
      rw [← filter_number h.nodup hu]
      exact List.filter_congr fun v _ => by simp [hnumber]
    have hrecord := h.records u hu
    have hlength : u.results.length = u.response.toolCalls.length := by
      rw [← hrecord.calls, List.length_map]
    have hreply := hrecord.reply
    rw [hnumber] at hreply
    rw [hone, List.flatMap_singleton, hnumber, hlength, toolWait, hreply]

/-- **The turn of a request line.** -/
theorem captureTurn_reel {trace : List Fields} (h : Recorded run 1 turns)
    (hreel : Reel run trace turns) {t : TurnRecord} (ht : t ∈ turns) {line : Fields}
    (hline : Alike line (requestLine run t.number t.messages)) :
    captureTurn trace line = .ok (t.captured run) := by
  have hnumber : line.lookup "turn" = some (.int t.number) :=
    hline "turn" (by decide) (by decide)
  have hrequest : line.lookup "request" = some (.dict (capturedRequest (sentRequest run
      (run.settings.dynamo.getD false) run.host.sessionId.text t.messages))) :=
    hline "request" (by decide) (by decide)
  obtain ⟨message, hmessages, hmessage⟩ := hreel.message.ofTurn (fun _ => rfl) h.nodup ht
  obtain ⟨reply, hreplies, hreply⟩ := hreel.inference.ofTurn (fun _ => rfl) h.nodup ht
  have hstatus : HarborAgent.get reply "response_status" = .str "completed" := by
    have hfield : HarborAgent.get (run.inferenceFields t.number t.response) "response_status" =
        optionValue .str t.response.status := rfl
    rw [hreply.get (by decide) (by decide), hfield, (h.records t ht).status]
    rfl
  have hbody : message.lookup "message" = some (.dict t.message) :=
    hmessage "message" (by decide) (by decide)
  have hwait : (ofType "tool" trace).foldlM (addWait (.int t.number)) (.int 0) =
      .ok (toolWait run (t.number - 1)) := by
    have hfold := foldlM_addWait t.number (lasted_flatMap turns hreel.tool) []
    rw [List.nil_append, waitValue_allDurations h ht] at hfold
    exact hfold
  unfold captureTurn require
  rw [hnumber]
  simp only [bind, Except.bind]
  rw [hmessages]
  simp only
  rw [hreplies]
  simp only [hstatus, hrequest, hwait, hbody, ne_eq, not_true_eq_false, Except.failIf, if_false,
    pure, Except.pure, filter_capturedRequest]
  rfl

/-- The workload of captured turns. -/
def capturedWorkload (run : AgentRun) (sha256 : String) (turns : List TurnRecord) : Value :=
  .dict [("schema_version", .int 1), ("source_model", .str run.modelName),
    ("source_trace_sha256", .str sha256),
    ("workflows", .list [.dict [("id", .str "captured"), ("arrival_ms", .int 0),
      ("turns", .list (turns.map (·.captured run)))]])]

theorem mapM_tape {lines : List Fields} {f : TurnRecord → Fields}
    {g : Fields → Except PyException Value} {k : TurnRecord → Value} : ∀ {turns : List TurnRecord},
      Tape lines (turns.map f) → (∀ t ∈ turns, ∀ line, Alike line (f t) → g line = .ok (k t)) →
        lines.mapM g = .ok (turns.map k) := by
  intro turns h hg
  rw [Except.mapM_eq_ok]
  induction turns generalizing lines with
  | nil =>
    cases h
    rfl
  | cons t turns ih =>
    cases h with
    | cons hline hrest =>
      obtain ⟨hhead, htail⟩ := List.forall_mem_cons.1 hg
      rw [List.map_cons, List.map_cons, List.map_cons, hhead _ hline, ih hrest htail]

/-- **What is read of a reel** is validated next. -/
theorem captureWorkload_reel {trace : List Fields} (sha256 : String)
    (hcapture : run.settings.captureRequests = true) (h : Recorded run 1 turns)
    (hreel : Reel run trace turns) :
    captureWorkload sha256 trace = validateWorkload (capturedWorkload run sha256 turns) := by
  have htyped : trace.any (fun event => (event.lookup "type").isNone) = false := by
    refine List.any_eq_false.2 fun line hline => ?_
    rw [Option.isNone_iff_eq_none]
    exact hreel.typed line hline
  obtain ⟨config, hconfig, hline⟩ := hreel.config.singleton
  have hrecorded : HarborAgent.get config "capture_requests" = .bool true := by
    have hfield : HarborAgent.get run.runConfig "capture_requests" =
        .bool run.settings.captureRequests := rfl
    rw [hline.get (by decide) (by decide), hfield, hcapture]
  have hmodel : config.lookup "model" = some (.str run.modelName) :=
    hline "model" (by decide) (by decide)
  obtain ⟨fields, hsummary, hstop⟩ := hreel.summary
  have hlast : (ofType "task_summary" trace).getLast?.map (HarborAgent.get · "stop_reason") =
      some (.str "no_tool_calls") := by
    obtain ⟨summary, hone, hline⟩ := hsummary.singleton
    have hreason : HarborAgent.get (("type", .str "task_summary") :: fields) "stop_reason" =
        .str "no_tool_calls" := congrArg (fun found => found.getD .null) hstop
    rw [hone, List.getLast?_singleton, Option.map_some, hline.get (by decide) (by decide), hreason]
  have hturns : (ofType "request" trace).mapM (captureTurn trace) =
      .ok (turns.map (·.captured run)) :=
    mapM_tape hreel.request fun t ht line hline => captureTurn_reel h hreel ht hline
  unfold captureWorkload captureConfig require
  rw [htyped, hconfig]
  simp only [hrecorded, hturns, hlast, hmodel, Except.failIf, bind, Except.bind, ne_eq,
    not_true_eq_false, Bool.false_eq_true, if_false, if_true]
  rfl

/-! ## Validation -/

theorem roundTo_nonneg (digits : Nat) {x : Rat} (h : 0 ≤ x) : 0 ≤ roundTo digits x := by
  have hscale : (0 : Rat) < 10 ^ digits := by positivity
  have hfloor : 0 ≤ (x * 10 ^ digits).floor := by
    rw [Rat.le_floor_iff]
    exact_mod_cast mul_nonneg h hscale.le
  have hnext : 0 ≤ (x * 10 ^ digits).floor + 1 := Int.add_nonneg hfloor (by decide)
  unfold roundTo
  refine div_nonneg ?_ hscale.le
  split
  · exact_mod_cast hfloor
  · split
    · exact_mod_cast hnext
    · split
      · exact_mod_cast hfloor
      · exact_mod_cast hnext

theorem toolWait_nonneg (hclock : ∀ n index, 0 ≤ run.host.toolTime n index) (n : Nat)
    (hreply : ∀ m, n = m + 1 → ∃ response, run.reply n = .ok response) :
    finiteNonnegative (toolWait run n) = true := by
  cases n with
  | zero => rfl
  | succ n =>
    obtain ⟨response, hresponse⟩ := hreply n rfl
    rw [toolWait, hresponse]
    dsimp only
    unfold waitValue
    split
    · rfl
    · refine decide_eq_true (List.sum_nonneg fun d hd => ?_)
      obtain ⟨index, -, rfl⟩ := List.mem_map.1 hd
      exact roundTo_nonneg 2 (hclock _ _)

theorem replayable_replayFields {messages : List Value} (h : messages ≠ []) :
    replayable (replayFields run messages) = run.settings.maxOutputTokens.isSome := by
  have hempty : messages.isEmpty = false := by
    cases messages with
    | nil => exact absurd rfl h
    | cons message messages => rfl
  unfold replayFields replayable
  cases htokens : run.settings.maxOutputTokens with
  | none => simp [List.lookup_cons, REQUEST_FIELDS]
  | some limit =>
    have hpos := run.settings.tokens_pos limit htokens
    simp [List.lookup_cons, REQUEST_FIELDS, hempty]
    omega

/-- The one workflow of a captured workload passes exactly with a token budget. -/
theorem validateWorkflow_captured (h : Recorded run 1 turns)
    (hclock : ∀ n index, 0 ≤ run.host.toolTime n index) :
    validateWorkflow (.dict [("id", .str "captured"), ("arrival_ms", .int 0),
      ("turns", .list (turns.map (·.captured run)))]) = .ok () ↔
        run.settings.maxOutputTokens.isSome = true := by
  have hsome : (Value.list (turns.map (·.captured run))).truthy = true := by
    rw [Value.truthy]
    cases turns with
    | nil => exact absurd rfl h.some
    | cons t turns => rfl
  have hwaits : (turns.map (·.captured run)).mapM (fun turn => getField turn "wait_ms" (.int 0)) =
      .ok (turns.map fun t => toolWait run (t.number - 1)) := by
    rw [Except.mapM_eq_ok, List.map_map, List.map_map]
    rfl
  have htimes : ((Value.int 0 :: turns.map fun t => toolWait run (t.number - 1)).all
      finiteNonnegative) = true := by
    refine List.all_eq_true.2 (List.forall_mem_cons.2 ⟨rfl, fun value hvalue => ?_⟩)
    obtain ⟨t, ht, rfl⟩ := List.mem_map.1 hvalue
    refine toolWait_nonneg hclock _ fun m hm => ?_
    have hbounds := h.bounds ht
    obtain ⟨u, hu, hnumber⟩ := h.exists_number (n := t.number - 1) (by omega) (by omega)
    exact ⟨u.response, hnumber ▸ (h.records u hu).reply⟩
  have hturn : ∀ t ∈ turns, validateTurn (t.captured run) = .ok () ↔
      run.settings.maxOutputTokens.isSome = true := by
    intro t ht
    have hrequest : item (t.captured run) "request" = .ok (.dict (replayFields run t.messages)) :=
      rfl
    unfold validateTurn
    rw [hrequest]
    simp only [bind, Except.bind, Except.failIf_eq_ok, Bool.not_eq_false,
      replayable_replayFields (h.records t ht).sent]
  have hbody : validateWorkflow (.dict [("id", .str "captured"), ("arrival_ms", .int 0),
      ("turns", .list (turns.map (·.captured run)))]) =
        (turns.map (·.captured run)).forM validateTurn := by
    unfold validateWorkflow
    have hget : getField (.dict [("id", .str "captured"), ("arrival_ms", .int 0),
        ("turns", .list (turns.map (·.captured run)))]) "turns" .null =
          .ok (.list (turns.map (·.captured run))) := rfl
    have harrival : getField (.dict [("id", .str "captured"), ("arrival_ms", .int 0),
        ("turns", .list (turns.map (·.captured run)))]) "arrival_ms" (.int 0) = .ok (.int 0) := rfl
    have helements : elements (.list (turns.map (·.captured run))) =
        .ok (turns.map (·.captured run)) := rfl
    rw [hget, harrival]
    simp only [bind, Except.bind, helements, hwaits, htimes, hsome, Except.failIf,
      Bool.true_eq_false, if_false]
  rw [hbody, Except.forM_eq_ok, List.forall_mem_map]
  obtain ⟨t, ht⟩ := List.exists_mem_of_ne_nil _ h.some
  exact ⟨fun hall => (hturn t ht).1 (hall t ht), fun hbudget u hu => (hturn u hu).2 hbudget⟩

theorem validateWorkload_captured (sha256 : String) (h : Recorded run 1 turns)
    (hclock : ∀ n index, 0 ≤ run.host.toolTime n index) (workload : Value) :
    validateWorkload (capturedWorkload run sha256 turns) = .ok workload ↔
      run.settings.maxOutputTokens.isSome = true ∧
        workload = capturedWorkload run sha256 turns := by
  rw [← validateWorkflow_captured h hclock]
  have hworkflows : getField (capturedWorkload run sha256 turns) "workflows" (.list []) =
      .ok (.list [.dict [("id", .str "captured"), ("arrival_ms", .int 0),
        ("turns", .list (turns.map (·.captured run)))]]) := rfl
  have hversion : getField (capturedWorkload run sha256 turns) "schema_version" .null =
      .ok (.int 1) := rfl
  have hid : getField (.dict [("id", .str "captured"), ("arrival_ms", .int 0),
      ("turns", .list (turns.map (·.captured run)))]) "id" .null = .ok (.str "captured") := rfl
  generalize Value.dict [("id", .str "captured"), ("arrival_ms", .int 0),
    ("turns", .list (turns.map (·.captured run)))] = workflow at hworkflows hid ⊢
  have helements : elements (.list [workflow]) = .ok [workflow] := rfl
  have hids : [workflow].mapM (fun workflow => getField workflow "id" .null) =
      .ok [.str "captured"] := by
    rw [Except.mapM_eq_ok, List.map_singleton, hid]
    rfl
  have hknown : ([Value.str "captured"].all fun id => id.isStr && id.truthy) = true := by decide
  have hpass : ¬((Value.int 1).pyEq (.int 1) = false ∨ (Value.list [workflow]).truthy = false) := by
    rw [pyEq_int]
    exact fun hfail => hfail.elim (fun hversion => by cases hversion) fun hempty => by cases hempty
  unfold validateWorkload
  rw [hworkflows, hversion]
  simp only [bind, Except.bind, helements, hids, hknown, Except.failIf, if_neg hpass,
    List.nodup_singleton, not_true_eq_false, or_false, Bool.true_eq_false, if_false]
  have hone : [workflow].forM validateWorkflow = validateWorkflow workflow := by
    cases hcheck : validateWorkflow workflow with
    | error e =>
      have hcons : [workflow].forM validateWorkflow =
          (validateWorkflow workflow >>= fun _ => .ok ⟨⟩) := rfl
      rw [hcons, hcheck]
      rfl
    | ok u =>
      rw [Except.forM_eq_ok, List.forall_mem_singleton]
      exact hcheck
  rw [hone]
  cases validateWorkflow workflow with
  | error e => simp
  | ok u => simp [pure, Except.pure, eq_comm]

/-! ## The capture of a run -/

/-- A trace becomes a workload only when it ends in a summary of a run that answered. -/
theorem answered_of_captured (hfresh : run.older = []) {sha256 : String} {workload : Value}
    (h : captureWorkload sha256 run.execute.2.trace = .ok workload) :
    run.execute.1 = .ok () ∧ run.execute.2.stopReason = "no_tool_calls" := by
  have hlast : (ofType "task_summary" run.execute.2.trace).getLast?.map
      (HarborAgent.get · "stop_reason") = some (.str "no_tool_calls") := by
    unfold captureWorkload at h
    obtain ⟨-, -, h⟩ := Except.bind_eq_ok_iff.1 h
    obtain ⟨config, -, h⟩ := Except.bind_eq_ok_iff.1 h
    obtain ⟨turns, -, h⟩ := Except.bind_eq_ok_iff.1 h
    obtain ⟨_, hfail, _⟩ := Except.bind_eq_ok_iff.1 h
    exact not_not.1 (Except.failIf_eq_ok.1 hfail)
  have hnone : ∀ {mine : List Fields}, run.execute.2.trace = run.older ++ mine →
      ofType "task_summary" mine ≠ [] := by
    intro mine htrace hempty
    rw [htrace, hfresh, List.nil_append, hempty] at hlast
    cases hlast
  have hconf : run.configured = true := by
    by_contra hconf
    have htrace : run.execute.2.trace = run.older ++ [] := by
      rw [execute, if_neg hconf, List.append_nil]
      rfl
    exact hnone htrace rfl
  have hnotice : NoticePasses run := by
    by_contra hraised
    obtain ⟨mine, htrace, hempty⟩ := execute_of_raised hraised
    exact hnone htrace hempty
  obtain ⟨replies, tools, hbooks, -, hended⟩ := handled_books run
  have hnoted := noted_finalNotice run run.handled.2
  obtain ⟨mine, htrace, hempty, -⟩ := (hbooks.noted hnoted).lines
  have hexecute := execute_of_notice hconf hnotice
  have hreason : run.handled.2.stopReason = "no_tool_calls" := by
    generalize hs : (run.finalNotice run.handled.2).2 = s at hexecute htrace hnoted
    have hsummary : kind (run.stamp s.trace.length (("type", .str "task_summary") ::
        run.summary s)) = some (.str "task_summary") := run.kind_stamp _ _
    have hget : HarborAgent.get (run.stamp s.trace.length (("type", .str "task_summary") ::
        run.summary s)) "stop_reason" = .str s.stopReason :=
      get_stamp _ _ (by decide) (by decide)
    have hlines : (run.summarize s).trace = mine ++ [run.stamp s.trace.length
        (("type", .str "task_summary") :: run.summary s)] := by
      have hmine : s.trace = mine := by rw [htrace, hfresh, List.nil_append]
      rw [← hmine]
      rfl
    rw [hexecute] at hlast
    dsimp only at hlast
    rw [hlines, ofType_append, hempty, ofType_singleton hsummary, List.nil_append,
      List.getLast?_singleton, Option.map_some, hget, Option.some.injEq, Value.str.injEq,
      hnoted.stopReason] at hlast
    exact hlast
  have hok : run.handled.1 = .ok () := by
    rw [hreason] at hended
    cases hresult : run.handled.1 with
    | ok => rfl
    | error e =>
      rw [hresult] at hended
      cases e with
      | cancelled =>
        have hother : "no_tool_calls" = "cancelled_or_task_timeout" := hended
        exact absurd hother (by decide)
      | error name =>
        have hother : "no_tool_calls" = "error" := hended
        exact absurd hother (by decide)
  rw [hexecute]
  exact ⟨hok, hnoted.stopReason.trans hreason⟩

/-- The workload of a run that answered. -/
theorem captured_iff (hcapture : run.settings.captureRequests = true) (hfresh : run.older = [])
    (hclock : ∀ n index, 0 ≤ run.host.toolTime n index) (sha256 : String)
    (hok : run.execute.1 = .ok ()) (hreason : run.execute.2.stopReason = "no_tool_calls") :
    ∃ turns, Recorded run 1 turns ∧ run.execute.2.requests = turns.map (·.messages) ∧
      ∀ workload, captureWorkload sha256 run.execute.2.trace = .ok workload ↔
        run.settings.maxOutputTokens.isSome = true ∧
          workload = capturedWorkload run sha256 turns := by
  obtain ⟨turns, hturns, hrequests, hreel⟩ := execute_reel hcapture hfresh hok hreason
  refine ⟨turns, hturns, hrequests, fun workload => ?_⟩
  rw [captureWorkload_reel sha256 hcapture hturns hreel,
    validateWorkload_captured sha256 hturns hclock]

/-- **The turns of a captured workload.** -/
theorem captured_turns (hcapture : run.settings.captureRequests = true) (hfresh : run.older = [])
    (hclock : ∀ n index, 0 ≤ run.host.toolTime n index) {sha256 : String} {workload : Value}
    (h : captureWorkload sha256 run.execute.2.trace = .ok workload) :
    validateWorkload workload = .ok workload ∧
      ∃ turns, workflowTurns workload = [turns] ∧
        (∀ on session, turns.map (fun turn =>
            replayRequest run.modelName on session (turnRequest turn)) =
          run.execute.2.requests.map (sentRequest run on session)) ∧
        ∀ i turn, turns[i]? = some turn → turn.get "wait_ms" = toolWait run i ∧
          ∃ response message calls, run.reply (i + 1) = .ok response ∧
            response.output = .chatMessage message :: calls ∧
            turn.get "expected_message" = .dict message := by
  obtain ⟨hok, hreason⟩ := answered_of_captured hfresh h
  obtain ⟨turns, hturns, hrequests, hiff⟩ := captured_iff hcapture hfresh hclock sha256 hok hreason
  obtain ⟨hbudget, rfl⟩ := (hiff workload).1 h
  refine ⟨(validateWorkload_captured sha256 hturns hclock _).2 ⟨hbudget, rfl⟩,
    turns.map (·.captured run), rfl, fun on session => ?_, fun i turn hturn => ?_⟩
  · rw [hrequests, List.map_map, List.map_map]
    refine List.map_congr_left fun t _ => ?_
    exact replayRequest_fields on session t.messages
  · rw [List.getElem?_map, Option.map_eq_some_iff] at hturn
    obtain ⟨t, ht, rfl⟩ := hturn
    have hnumber : t.number = i + 1 := by
      have hget : (turns.map (·.number))[i]? = some t.number := by rw [List.getElem?_map, ht]; rfl
      have hi : i < turns.length := (List.getElem?_eq_some_iff.1 ht).1
      rw [hturns.numbered, List.getElem?_range' hi, Option.some.injEq] at hget
      omega
    obtain ⟨calls, houtput⟩ := (hturns.records t (List.mem_of_getElem? ht)).message
    have hreply := (hturns.records t (List.mem_of_getElem? ht)).reply
    rw [hnumber] at hreply
    refine ⟨?_, t.response, t.message, calls, hreply, houtput, rfl⟩
    have hwait : (t.captured run).get "wait_ms" = toolWait run (t.number - 1) := rfl
    rw [hwait, hnumber, Nat.add_sub_cancel]

/-- **A trace becomes a workload exactly when its run answered within a token budget, and the
workload then replays what the run sent**: turn by turn the same requests, whichever the session
and the hint, with the messages that came back, and after the time the tools took. -/
theorem capture_replays (run : AgentRun) (hcapture : run.settings.captureRequests = true)
    (hfresh : run.older = []) (hclock : ∀ n index, 0 ≤ run.host.toolTime n index)
    (sha256 : String) :
    ((∃ workload, captureWorkload sha256 run.execute.2.trace = .ok workload) ↔
      run.execute.1 = .ok () ∧ run.execute.2.stopReason = "no_tool_calls" ∧
        run.settings.maxOutputTokens.isSome = true) ∧
    ∀ workload, captureWorkload sha256 run.execute.2.trace = .ok workload →
      validateWorkload workload = .ok workload ∧
      ∃ turns, workflowTurns workload = [turns] ∧
        (∀ on session, turns.map (fun turn =>
            replayRequest run.modelName on session (turnRequest turn)) =
          run.execute.2.requests.map (sentRequest run on session)) ∧
        ∀ i turn, turns[i]? = some turn → turn.get "wait_ms" = toolWait run i ∧
          ∃ response message calls, run.reply (i + 1) = .ok response ∧
            response.output = .chatMessage message :: calls ∧
            turn.get "expected_message" = .dict message := by
  refine ⟨⟨?_, ?_⟩, fun workload h => captured_turns hcapture hfresh hclock h⟩
  · rintro ⟨workload, h⟩
    obtain ⟨hok, hreason⟩ := answered_of_captured hfresh h
    obtain ⟨turns, -, -, hiff⟩ := captured_iff hcapture hfresh hclock sha256 hok hreason
    exact ⟨hok, hreason, ((hiff workload).1 h).1⟩
  · rintro ⟨hok, hreason, hbudget⟩
    obtain ⟨turns, -, -, hiff⟩ := captured_iff hcapture hfresh hclock sha256 hok hreason
    exact ⟨_, (hiff _).2 ⟨hbudget, rfl⟩⟩

theorem nothingExtra : ∀ f ∈ ([] : Fields),
    f.1 ≠ "role" ∧ f.1 ≠ "content" ∧ f.1 ≠ "tool_calls" := by
  intro f hf
  cases hf

/-- A message of the model. -/
def assistantMessage (content : Option String) (toolCalls : Option (List ChatToolCall)) :
    ChatCompletionMessage := ⟨"assistant", content, toolCalls, [], nothingExtra⟩

/-- A captured run whose model reads a file and then answers. -/
def readAndAnswer : AgentRun :=
  { oneReply "Done." (some false) (.ok (.null, .null)) with
    settings := { (oneReply "Done." (some false) (.ok (.null, .null))).settings with
      maxOutputTokens := some 4096
      captureRequests := true
      tokens_pos := fun n h => (by cases h; decide)
      dynamo_chat := fun _ => ⟨rfl, rfl⟩
      capture_dynamo := fun _ => (by decide) }
    host := { (oneReply "Done." (some false) (.ok (.null, .null))).host with
      complete := fun turn => .ok ({
        choices := [if turn = 1 then
          ⟨some "tool_calls", assistantMessage none (some [⟨"call", "function", "read_file",
            "\x7b\"path\": \"main.py\"\x7d"⟩])⟩
        else ⟨some "stop", assistantMessage (some "Done.") none⟩]
        usage := none
        model := "model"
        id := "completion" }, .null)
      execute := fun _ _ => .ok ⟨"print(1)", true, ⟨"head", 20000, false, 8, 8, 8, 8⟩⟩
      toolTime := fun _ _ => 25 / 2 } }

/-- Its workload has both requests. -/
theorem capture_replays_readAndAnswer : ∃ workload turns,
    captureWorkload "digest" readAndAnswer.execute.2.trace = .ok workload ∧
      workflowTurns workload = [turns] ∧ turns.length = 2 := by
  have hlast : (0 : Rat) ≤ 25 / 2 := by norm_num
  obtain ⟨hiff, hread⟩ := capture_replays readAndAnswer rfl rfl (fun _ _ => hlast) "digest"
  obtain ⟨workload, h⟩ := hiff.2 ⟨rfl, rfl, rfl⟩
  obtain ⟨-, turns, hturns, hrequests, -⟩ := hread workload h
  refine ⟨workload, turns, h, hturns, ?_⟩
  have hlength := congrArg List.length (hrequests true "session")
  rw [List.length_map, List.length_map] at hlength
  rw [hlength]
  rfl

end ReedCode.Replay
