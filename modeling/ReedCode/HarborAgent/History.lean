import ReedCode.HarborAgent.Changes

/-!
# The history protocol

What the model is sent over a run of the agent.

* `AnswersCalls` — after every message with tool calls, one tool message for each call, in
  order and with its id, before any other message;
* `answersCalls_append`, `answersCalls_block` — how answered conversations compose;
* `turn_talk` — one turn keeps the conversation answered, and only extends what was sent;
* `history_protocol` — the protocol of a whole run, however its awaits end.
-/

set_option autoImplicit false

namespace ReedCode.HarborAgent

open AgentRun

/-! ## Conversations -/

/-- The ids of the tool calls of a message. -/
def callIds (message : Value) : List Value :=
  match message.get? "tool_calls" with
  | some (.list calls) => calls.map fun call => (call.get? "id").getD .null
  | _ => []

/-- The id of the call that a tool message answers. -/
def answeredCall (message : Value) : Option Value :=
  if message.get? "role" = some (.str "tool") then message.get? "tool_call_id" else none

/-- After every message with tool calls exactly one tool message per call follows, in call
order and with that call's id, before any other message. -/
def AnswersCalls (messages : List Value) : Prop :=
  ∀ before message after, messages = before ++ message :: after → callIds message ≠ [] →
    ∃ answers rest, after = answers ++ rest ∧
      answers.map answeredCall = (callIds message).map some ∧
      ∀ later ∈ rest.head?, answeredCall later = none

theorem answersCalls_append {xs ys : List Value} (hx : AnswersCalls xs) (hy : AnswersCalls ys)
    (hhead : ∀ y ∈ ys.head?, answeredCall y = none) : AnswersCalls (xs ++ ys) := by
  intro before message after h hcalls
  rcases List.append_eq_append_iff.1 h with ⟨between, rfl, hys⟩ | ⟨between, hxs, hys⟩
  · exact hy between message after hys hcalls
  · cases between with
    | nil => exact hy [] message after hys.symm hcalls
    | cons first between =>
      obtain ⟨rfl, rfl⟩ : message = first ∧ after = between ++ ys := by
        simpa using hys
      obtain ⟨answers, rest, rfl, hanswers, hrest⟩ := hx before message between hxs hcalls
      refine ⟨answers, rest ++ ys, by rw [List.append_assoc], hanswers, ?_⟩
      intro later hlater
      cases rest with
      | nil => exact hhead later hlater
      | cons r rest => exact hrest later hlater

/-- A message with the answers to its calls. -/
theorem answersCalls_block {message : Value} {answers : List Value}
    (hanswers : answers.map answeredCall = (callIds message).map some)
    (hplain : ∀ answer ∈ answers, callIds answer = []) : AnswersCalls (message :: answers) := by
  intro before m after h hcalls
  cases before with
  | nil =>
    obtain ⟨rfl, rfl⟩ : message = m ∧ answers = after := by simpa using h
    exact ⟨answers, [], by rw [List.append_nil], hanswers, fun _ hl => by cases hl⟩
  | cons first before =>
    obtain ⟨-, rfl⟩ : message = first ∧ answers = before ++ m :: after := by simpa using h
    exact absurd (hplain m (List.mem_append_right _ List.mem_cons_self)) hcalls

/-! ## Messages of a history -/

theorem chatMessages_eq_ok {instructions : String} {history : List HistoryItem}
    {messages : List Value} : chatMessages instructions history = .ok messages ↔
      ∃ items : List (List Value), history.map itemMessages = items.map .ok ∧
        messages = .dict [("role", .str "system"), ("content", .str instructions)] ::
          items.flatten := by
  unfold chatMessages
  simp only [Except.bind_eq_ok_iff, Except.mapM_eq_ok, pure, Except.pure, Except.ok.injEq,
    eq_comm (b := messages)]

/-- Items appended to a history append their messages. -/
theorem chatMessages_append {instructions : String} {history more : List HistoryItem}
    {messages : List Value} {items : List (List Value)}
    (h : chatMessages instructions history = .ok messages)
    (hmore : more.map itemMessages = items.map .ok) :
    chatMessages instructions (history ++ more) = .ok (messages ++ items.flatten) := by
  obtain ⟨old, hold, rfl⟩ := chatMessages_eq_ok.1 h
  refine chatMessages_eq_ok.2 ⟨old ++ items, ?_, ?_⟩
  · rw [List.map_append, List.map_append, hold, hmore]
  · rw [List.flatten_append, List.cons_append]

/-- The outputs of the calls of a reply, in order. -/
def Answered (calls : List FunctionCall) (answers : List HistoryItem) : Prop :=
  List.Forall₂ (fun call item => ∃ result, item = callOutput call result) calls answers

theorem Answered.messages : ∀ {calls : List FunctionCall} {answers : List HistoryItem},
    Answered calls answers → ∃ messages : List Value,
      answers.map itemMessages = messages.map (fun m => .ok [m]) ∧
      messages.map answeredCall = calls.map (fun call => some (.str call.callId)) ∧
      ∀ m ∈ messages, callIds m = []
  | _, _, .nil => ⟨[], rfl, rfl, fun _ hm => by cases hm⟩
  | call :: _, _ :: _, .cons hcall hrest => by
    obtain ⟨result, rfl⟩ := hcall
    obtain ⟨messages, hitems, hids, hplain⟩ := Answered.messages hrest
    refine ⟨.dict [("role", .str "tool"), ("tool_call_id", .str call.callId),
      ("content", .str result.text)] :: messages, ?_, ?_, ?_⟩
    · rw [List.map_cons, List.map_cons, hitems]
      rfl
    · rw [List.map_cons, List.map_cons, hids]
      rfl
    · intro m hm
      rcases List.mem_cons.1 hm with rfl | hm
      · rfl
      · exact hplain m hm

/-! ## Replies of the Chat API -/

theorem readCall_eq_ok {call : ChatToolCall} {item : OutputItem} (h : readCall call = .ok item) :
    item = .chatFunctionCall ⟨call.name, call.arguments, call.id⟩ := by
  unfold readCall at h
  split at h
  · cases h
  · cases h
    rfl

/-- The items of the calls send nothing; their ids are those of the message. -/
theorem readCalls_eq_ok : ∀ {calls : List ChatToolCall} {items : List OutputItem},
    calls.map readCall = items.map .ok →
      (items.map fun item => itemMessages (.output item)) = items.map (fun _ => .ok []) ∧
      (items.filterMap OutputItem.call?).map (fun call => Value.str call.callId) =
        calls.map (fun call => Value.str call.id)
  | [], [], _ => ⟨rfl, rfl⟩
  | [], _ :: _, h => by simp at h
  | _ :: _, [], h => by simp at h
  | call :: calls, item :: items, h => by
    simp only [List.map_cons, List.cons.injEq] at h
    obtain ⟨hmessages, hids⟩ := readCalls_eq_ok h.2
    have hitem := readCall_eq_ok h.1
    subst hitem
    refine ⟨?_, by simp [OutputItem.call?, hids]⟩
    rw [List.map_cons, List.map_cons, hmessages]
    rfl

theorem lookup_filter_fst {p : String → Bool} {key : String} (hkey : p key = true) :
    ∀ fields : Fields, (fields.filter fun f => p f.1).lookup key = fields.lookup key
  | [] => rfl
  | (name, value) :: fields => by
    by_cases hname : key = name
    · subst hname
      simp [hkey]
    · have hbeq : (key == name) = false := beq_false_of_ne hname
      cases hp : p name with
      | true => simp [hp, List.lookup_cons, hbeq, lookup_filter_fst hkey fields]
      | false => simp [hp, List.lookup_cons, hbeq, lookup_filter_fst hkey fields]

theorem lookup_eq_none_of_forall {key : String} : ∀ {fields : Fields},
    (∀ f ∈ fields, f.1 ≠ key) → fields.lookup key = none
  | [], _ => rfl
  | (name, value) :: fields, h => by
    have hbeq : (key == name) = false :=
      beq_false_of_ne fun he => h (name, value) List.mem_cons_self he.symm
    rw [List.lookup_cons, hbeq]
    exact lookup_eq_none_of_forall fun f hf => h f (List.mem_cons_of_mem _ hf)

theorem lookup_modelDump_toolCalls (message : ChatCompletionMessage) :
    message.modelDump.lookup "tool_calls" =
      message.toolCalls.map fun calls => .list (calls.map ChatToolCall.dump) := by
  have hextra : message.extra.lookup "tool_calls" = none :=
    lookup_eq_none_of_forall fun f hf => (message.extra_other f hf).2.2
  unfold ChatCompletionMessage.modelDump
  cases message.content <;> cases message.toolCalls <;> simp [List.lookup_cons, hextra]

/-- The message that is sent back for a reply. -/
def sentMessage (message : ChatCompletionMessage) : Value :=
  .dict (message.modelDump.filter fun f => sentFields.contains f.1)

theorem callIds_sentMessage (message : ChatCompletionMessage) :
    callIds (sentMessage message) =
      (message.toolCalls.getD []).map fun call => .str call.id := by
  have hlookup : (sentMessage message).get? "tool_calls" =
      message.toolCalls.map fun calls => .list (calls.map ChatToolCall.dump) := by
    rw [← lookup_modelDump_toolCalls]
    have hsent : sentFields.contains "tool_calls" = true := by decide
    exact lookup_filter_fst (p := fun name => sentFields.contains name) hsent message.modelDump
  unfold callIds
  rw [hlookup]
  cases message.toolCalls with
  | none => rfl
  | some calls =>
    simp only [Option.map_some, List.map_map, Option.getD_some]
    rfl

/-- A message sent back answers no call: it carries no call id. -/
theorem answeredCall_sentMessage (message : ChatCompletionMessage) :
    answeredCall (sentMessage message) = none := by
  have hlookup : (sentMessage message).get? "tool_call_id" = none := by
    refine lookup_eq_none_of_forall fun f hf he => ?_
    have hsent := (List.mem_filter.1 hf).2
    rw [he] at hsent
    exact absurd hsent (by decide)
  unfold answeredCall
  split
  · exact hlookup
  · rfl

theorem readCompletion_eq_ok {completion : Completion} {timing : Value}
    {response : ModelResponse} (h : readCompletion completion timing = .ok response)
    (hstatus : response.status = some "completed") :
    ∃ (message : ChatCompletionMessage) (calls : List OutputItem),
      response.output = .chatMessage message.modelDump :: calls ∧
      (message.toolCalls.getD []).map readCall = calls.map .ok := by
  unfold readCompletion at h
  split at h
  · rename_i choice _
    obtain ⟨calls, hcalls, hresponse⟩ := Except.bind_eq_ok_iff.1 h
    cases hresponse
    have hcompleted : choice.finishReason = some "stop" ∨
        choice.finishReason = some "tool_calls" := by
      by_contra hnot
      simp [hnot] at hstatus
    rw [if_pos hcompleted] at hcalls
    exact ⟨choice.message, calls, rfl, Except.mapM_eq_ok.1 hcalls⟩
  · cases h

/-- **What a completed Chat reply adds to the messages**: one message, with the calls that
the agent executes. -/
theorem reply_messages {run : AgentRun} {turn : Nat} {response : ModelResponse}
    (hapi : run.settings.modelApi = .chat) (h : run.reply turn = .ok response)
    (hstatus : response.status = some "completed") :
    ∃ message items, (response.output.map fun item => itemMessages (.output item)) =
        (items : List (List Value)).map .ok ∧ items.flatten = [message] ∧
      callIds message = response.toolCalls.map (fun call => .str call.callId) ∧
      answeredCall message = none := by
  rw [reply, hapi] at h
  obtain ⟨⟨completion, timing⟩, -, h⟩ := Except.bind_eq_ok_iff.1 h
  obtain ⟨message, calls, houtput, hcalls⟩ := readCompletion_eq_ok h hstatus
  obtain ⟨hmessages, hids⟩ := readCalls_eq_ok hcalls
  have htool : response.toolCalls = calls.filterMap OutputItem.call? := by
    rw [ModelResponse.toolCalls, houtput]
    rfl
  refine ⟨sentMessage message, [sentMessage message] :: calls.map fun _ => [], ?_, ?_, ?_,
    answeredCall_sentMessage _⟩
  · rw [houtput, List.map_cons, List.map_cons, hmessages, List.map_map]
    rfl
  · simp
  · rw [callIds_sentMessage, htool, ← hids]

/-! ## One turn -/

/-- A call whose reply completed within its limits. -/
def SafeCall (run : AgentRun) (turn : Nat) (call : FunctionCall) : Prop :=
  ∃ response, run.reply turn = .ok response ∧ call ∈ response.toolCalls ∧
    response.status = some "completed" ∧ (responseTermination response).outputLimitHit = false

/-- What has been sent and executed so far follows the protocol. -/
structure Sent (run : AgentRun) (s : AgentState) : Prop where
  answered : ∀ messages ∈ s.requests, AnswersCalls messages
  chain : s.requests.Pairwise (· <+: ·)
  safe : ∀ turn call, (turn, call) ∈ s.executed → SafeCall run turn call
  counted : s.modelCalls ≤ s.attempts

/-- So does what the next request says, and it extends what has been sent. -/
structure Talk (run : AgentRun) (s : AgentState) : Prop extends Sent run s where
  current : run.settings.modelApi = .chat → ∃ messages,
    chatMessages INSTRUCTIONS s.history = .ok messages ∧ AnswersCalls messages ∧
      ∀ sent ∈ s.requests, sent <+: messages

variable {run : AgentRun} {s s' : AgentState}

theorem Sent.noted (h : Sent run s) (hn : Noted s s') : Sent run s' := by
  obtain ⟨lines, -, rfl⟩ := hn
  exact ⟨h.answered, h.chain, h.safe, h.counted⟩

theorem Talk.noted (h : Talk run s) (hn : Noted s s') : Talk run s' := by
  have hsent := h.toSent.noted hn
  obtain ⟨lines, -, rfl⟩ := hn
  exact ⟨hsent, h.current⟩

/-- Sending the messages of the history. -/
theorem Talk.send (h : Talk run s) {messages : List (List Value)}
    (hmessages : run.settings.modelApi = .responses ∧ messages = [] ∨
      ∃ m, run.settings.modelApi = .chat ∧ chatMessages INSTRUCTIONS s.history = .ok m ∧
        messages = [m]) :
    Talk run { s with requests := s.requests ++ messages, attempts := s.attempts + 1 } := by
  rcases hmessages with ⟨hapi, rfl⟩ | ⟨m, hapi, hm, rfl⟩
  · refine ⟨⟨?_, ?_, h.safe, Nat.le_succ_of_le h.counted⟩, fun hchat => ?_⟩
    · simpa using h.answered
    · simpa using h.chain
    · rw [hapi] at hchat
      cases hchat
  · obtain ⟨m', hm', hanswers, hextends⟩ := h.current hapi
    obtain rfl : m' = m := by
      rw [hm'] at hm
      exact Except.ok.inj hm
    have hall : ∀ sent ∈ s.requests ++ [m'], sent <+: m' := by
      intro sent hsent
      rcases List.mem_append.1 hsent with hold | hnew
      · exact hextends sent hold
      · exact List.mem_singleton.1 hnew ▸ List.prefix_refl _
    refine ⟨⟨fun sent hsent => ?_, ?_, h.safe, Nat.le_succ_of_le h.counted⟩,
      fun _ => ⟨m', hm, hanswers, hall⟩⟩
    · rcases List.mem_append.1 hsent with hold | hnew
      · exact h.answered sent hold
      · rwa [List.mem_singleton.1 hnew]
    · exact List.pairwise_append.2 ⟨h.chain, List.pairwise_singleton _ _,
        fun sent hold new hnew => List.mem_singleton.1 hnew ▸ hextends sent hold⟩

/-- What the tools of a turn leave: the calls are begun in order, and all are answered unless
one raises. -/
structure ToolsRun (turn : Nat) (calls : List FunctionCall) (s : AgentState)
    (result : Except PyException Unit) (s' : AgentState) : Prop where
  history : ∃ answers, s'.history = s.history ++ answers ∧
    (result = .ok () → Answered calls answers)
  executed : ∃ begun : List FunctionCall, s'.executed = s.executed ++ begun.map (turn, ·) ∧
    ∀ call ∈ begun, call ∈ calls
  requests : s'.requests = s.requests
  attempts : s'.attempts = s.attempts
  modelCalls : s'.modelCalls = s.modelCalls

theorem toolsRun (run : AgentRun) (turn : Nat) : ∀ (calls : List FunctionCall) (index : Nat)
    (s : AgentState), ToolsRun turn calls s (run.runTools turn index calls s).1
      (run.runTools turn index calls s).2
  | [], _, s => ⟨⟨[], (List.append_nil _).symm, fun _ => .nil⟩,
      ⟨[], (List.append_nil _).symm, fun _ h => by cases h⟩, rfl, rfl, rfl⟩
  | call :: calls, index, s => by
    unfold runTools
    have hstart : Noted s (run.boundary "tool_start" [("turn", .int turn),
      ("call_id", .str call.callId), ("tool", .str call.name)] s) := noted_boundary _ _
    obtain ⟨lines, -, hstart⟩ := hstart
    rw [hstart]
    simp only
    split
    · refine ⟨⟨[], (List.append_nil _).symm, fun h => by cases h⟩, ⟨[call], rfl, ?_⟩, rfl, rfl,
        rfl⟩
      exact fun c hc => List.mem_singleton.1 hc ▸ List.mem_cons_self
    · rename_i result _
      obtain ⟨⟨answers, hhistory, hanswers⟩, ⟨begun, hexecuted, hmem⟩, hrequests, hattempts,
        hcalls⟩ := toolsRun run turn calls (index + 1) _
      refine ⟨⟨callOutput call result :: answers, ?_, fun hok => .cons ⟨result, rfl⟩
        (hanswers hok)⟩, ⟨call :: begun, ?_, fun c hc => ?_⟩, hrequests, hattempts, hcalls⟩
      · rw [hhistory]
        exact List.append_assoc _ _ _
      · rw [hexecuted]
        exact List.append_assoc _ _ _
      · exact (List.mem_cons.1 hc).elim (fun he => he ▸ List.mem_cons_self)
          fun hc => List.mem_cons_of_mem _ (hmem c hc)

/-- What a turn leaves of the protocol. -/
structure TurnRun (run : AgentRun) (s : AgentState) (turnEnd : TurnEnd) (s' : AgentState) :
    Prop where
  sent : Sent run s'
  attempts : s'.attempts ≤ s.attempts + 1
  talk : turnEnd = .next → Talk run s'

theorem AgentRun.Called.talk {turn : Nat} {result : Except PyException ModelResponse}
    (h : Called run turn s result s') (ht : Talk run s) :
    Talk run s' ∧ s'.attempts ≤ s.attempts + 1 ∧ ∀ response, result = .ok response →
      run.reply turn = .ok response ∧ s'.modelCalls + 1 ≤ s'.attempts := by
  cases h with
  | unsent hs =>
    refine ⟨ht.noted hs, ?_, fun response h => by cases h⟩
    obtain ⟨lines, -, rfl⟩ := hs
    exact Nat.le_succ _
  | sent messages hmessages hreply hs =>
    have hsent := (ht.send hmessages).noted hs
    obtain ⟨lines, -, rfl⟩ := hs
    exact ⟨hsent, Nat.le_refl _, fun response hr =>
      ⟨hreply response hr, Nat.succ_le_succ ht.counted⟩⟩

/-- The history after a completed reply and the answers to its calls. -/
theorem Talk.answer {n : Nat} {response : ModelResponse} {answers : List HistoryItem}
    (h : Talk run s) (hreply : run.reply n = .ok response)
    (hstatus : response.status = some "completed")
    (hanswers : Answered response.toolCalls answers) (hapi : run.settings.modelApi = .chat) :
    ∃ messages, chatMessages INSTRUCTIONS
        (s.history ++ response.output.map .output ++ answers) = .ok messages ∧
      AnswersCalls messages ∧ ∀ sent ∈ s.requests, sent <+: messages := by
  obtain ⟨messages, hmessages, hold, hextends⟩ := h.current hapi
  obtain ⟨message, items, hitems, hflat, hids, hnone⟩ := reply_messages hapi hreply hstatus
  obtain ⟨tools, htools, hanswered, hplain⟩ := hanswers.messages
  have houtput : (response.output.map HistoryItem.output).map itemMessages = items.map .ok := by
    rw [List.map_map]
    exact hitems
  have htools' : answers.map itemMessages = (tools.map fun m => [m]).map .ok := by
    rw [htools, List.map_map]
    rfl
  have hflat' : (tools.map fun m => [m]).flatten = tools := by
    rw [← List.flatMap_def, List.flatMap_singleton']
  have hall := chatMessages_append (chatMessages_append hmessages houtput) htools'
  rw [hflat, hflat'] at hall
  refine ⟨messages ++ [message] ++ tools, hall, ?_, fun sent hsent => ?_⟩
  · rw [List.append_assoc, List.singleton_append]
    refine answersCalls_append hold (answersCalls_block ?_ hplain) fun y hy => ?_
    · rw [hanswered, hids, List.map_map]
      rfl
    · cases hy
      exact hnone
  · rw [List.append_assoc]
    exact (hextends sent hsent).trans (List.prefix_append _ _)

/-- The tools of a completed reply keep the protocol. -/
theorem Talk.tools {n : Nat} {response : ModelResponse} (h : Talk run s) (index : Nat)
    (sₜ : AgentState) (hreply : run.reply n = .ok response)
    (hstatus : response.status = some "completed")
    (hlimit : (responseTermination response).outputLimitHit = false)
    (hhistory : sₜ.history = s.history ++ response.output.map .output)
    (hrequests : sₜ.requests = s.requests) (hexecuted : sₜ.executed = s.executed)
    (hcounted : sₜ.modelCalls ≤ sₜ.attempts) :
    Sent run (run.runTools n index response.toolCalls sₜ).2 ∧
      (run.runTools n index response.toolCalls sₜ).2.attempts = sₜ.attempts ∧
      ((run.runTools n index response.toolCalls sₜ).1 = .ok () →
        Talk run (run.runTools n index response.toolCalls sₜ).2) := by
  have htools := toolsRun run n response.toolCalls index sₜ
  obtain ⟨⟨answers, hafter, hanswered⟩, ⟨begun, hbegun, hmem⟩, hreqs, hattempts, hcalls⟩ := htools
  have hsent : Sent run (run.runTools n index response.toolCalls sₜ).2 := by
    refine ⟨?_, ?_, fun turn call hcall => ?_, ?_⟩
    · rw [hreqs, hrequests]
      exact h.answered
    · rw [hreqs, hrequests]
      exact h.chain
    · rw [hbegun, hexecuted] at hcall
      rcases List.mem_append.1 hcall with hold | hnew
      · exact h.safe turn call hold
      · obtain ⟨c, hc, heq⟩ := List.mem_map.1 hnew
        cases heq
        exact ⟨response, hreply, hmem call hc, hstatus, hlimit⟩
    · rw [hcalls, hattempts]
      exact hcounted
  refine ⟨hsent, hattempts, fun hok => ⟨hsent, fun hapi => ?_⟩⟩
  rw [hafter, hhistory, hreqs, hrequests]
  exact h.answer hreply hstatus (hanswered hok) hapi

/-- **One turn** keeps the protocol. -/
theorem turn_talk (h : Talk run s) (n : Nat) :
    TurnRun run s (run.turn n s).1 (run.turn n s).2 := by
  unfold turn
  have hstart : Noted s (run.boundary "model_start" [("turn", .int n)] s) := noted_boundary _ _
  have htalk := h.noted hstart
  obtain ⟨lines, -, hstart⟩ := hstart
  rw [hstart] at htalk ⊢
  simp only
  have hcall := (called n).talk htalk
  split
  · rename_i e s₁ hmodel
    rw [hmodel] at hcall
    exact ⟨hcall.1.toSent, hcall.2.1, fun hnext => by cases hnext⟩
  rename_i response s₁ hmodel
  rw [hmodel] at hcall
  obtain ⟨htalk₁, hattempts, hok⟩ := hcall
  obtain ⟨hreply, hcounted⟩ := hok response rfl
  obtain ⟨s₂, hs₂⟩ : ∃ s₂, run.recordReply n response s₁ = s₂ := ⟨_, rfl⟩
  have hrecord : s₂.history = s₁.history ∧ s₂.requests = s₁.requests ∧
      s₂.executed = s₁.executed ∧ s₂.attempts = s₁.attempts ∧
      s₂.modelCalls = s₁.modelCalls + 1 := by
    obtain ⟨notes, -, heq⟩ := recordReply_eq run n response s₁
    rw [← hs₂, heq]
    exact ⟨rfl, rfl, rfl, rfl, rfl⟩
  rw [hs₂]
  obtain ⟨hhistory, hrequests, hexecuted, hatt, hcalls⟩ := hrecord
  have hsent : Sent run s₂ := by
    refine ⟨?_, ?_, ?_, ?_⟩
    · rw [hrequests]
      exact htalk₁.answered
    · rw [hrequests]
      exact htalk₁.chain
    · rw [hexecuted]
      exact htalk₁.safe
    · rw [hcalls, hatt]
      exact hcounted
  have hone : s₂.attempts ≤ s.attempts + 1 := hatt ▸ hattempts
  have hstays : ∀ s' : AgentState, s'.requests = s₂.requests → s'.executed = s₂.executed →
      s'.attempts = s₂.attempts → s'.modelCalls = s₂.modelCalls → Sent run s' ∧
        s'.attempts ≤ s.attempts + 1 := fun s' hr he ha hm =>
    ⟨⟨hr ▸ hsent.answered, hr ▸ hsent.chain, he ▸ hsent.safe, hm ▸ ha ▸ hsent.counted⟩, ha ▸ hone⟩
  split
  · have hend := hstays { s₂ with stopReason := "max_output_tokens" } rfl rfl rfl rfl
    exact ⟨hend.1, hend.2, fun hnext => by cases hnext⟩
  rename_i hlimit
  split
  · exact ⟨hsent, hone, fun hnext => by cases hnext⟩
  rename_i hstatus
  split
  · split
    · have hend := hstays { s₂ with
        history := s₂.history ++ response.output.map .output
        stopReason := "empty_model_response" } rfl rfl rfl rfl
      exact ⟨hend.1, hend.2, fun hnext => by cases hnext⟩
    · split
      · exact ⟨⟨hsent.answered, hsent.chain, hsent.safe, hsent.counted⟩, hone,
          fun hnext => by cases hnext⟩
      · exact ⟨⟨hsent.answered, hsent.chain, hsent.safe, hsent.counted⟩, hone,
          fun hnext => by cases hnext⟩
  · rename_i call calls htoolCalls
    have hbegin : Noted { s₂ with history := s₂.history ++ response.output.map .output }
        (run.boundary "tools_start" [("turn", .int n), ("pending_calls",
          .int (call :: calls).length)]
          { s₂ with history := s₂.history ++ response.output.map .output }) :=
      noted_boundary _ _
    obtain ⟨lines', -, hbegin⟩ := hbegin
    have htools := htalk₁.tools 0 { s₂ with
        history := s₂.history ++ response.output.map .output
        trace := s₂.trace ++ lines' } hreply (not_not.1 hstatus) (Bool.eq_false_iff.2 hlimit)
      (by rw [← hhistory]) hrequests hexecuted hsent.counted
    obtain ⟨htoolsSent, htoolsAttempts, htoolsTalk⟩ := htools
    have htoolsOne := htoolsAttempts.trans_le hone
    rw [htoolCalls, ← hbegin] at htoolsSent htoolsOne htoolsTalk
    split
    · rename_i e s₃ hrun
      rw [hrun] at htoolsSent htoolsOne
      exact ⟨htoolsSent, htoolsOne, fun hnext => by cases hnext⟩
    · rename_i s₃ hrun
      rw [hrun] at htoolsTalk htoolsOne
      have hcomplete : Noted s₃ (run.boundary "tools_complete" [("turn", .int n)] s₃) :=
        noted_boundary _ _
      have hnext := (htoolsTalk rfl).noted hcomplete
      refine ⟨hnext.toSent, ?_, fun _ => hnext⟩
      obtain ⟨more, -, hcomplete⟩ := hcomplete
      rw [hcomplete]
      exact htoolsOne

/-! ## Whole runs -/

/-- The protocol over the turns that are left. -/
theorem loop_sent : ∀ (left n : Nat) (s : AgentState), Talk run s →
    Sent run (run.loop left n s).2 ∧ (run.loop left n s).2.attempts ≤ s.attempts + left
  | 0, _, _, h => ⟨⟨h.answered, h.chain, h.safe, h.counted⟩, Nat.le_refl _⟩
  | left + 1, n, s, h => by
    have hturn := turn_talk h n
    unfold loop
    split
    · rename_i e s' heq
      rw [heq] at hturn
      exact ⟨hturn.sent, hturn.attempts.trans (by omega)⟩
    · rename_i s' heq
      rw [heq] at hturn
      exact ⟨hturn.sent, hturn.attempts.trans (by omega)⟩
    · rename_i s' heq
      rw [heq] at hturn
      obtain ⟨hsent, hattempts⟩ := loop_sent left (n + 1) s' (hturn.talk rfl)
      have hone : s'.attempts ≤ s.attempts + 1 := hturn.attempts
      exact ⟨hsent, by omega⟩

/-- Nothing has been sent when the configuration is written. -/
theorem talk_start (run : AgentRun) : Talk run (run.log run.runConfig run.initial) := by
  refine ⟨⟨fun _ h => (by cases h), List.Pairwise.nil, fun _ _ h => (by cases h), Nat.le_refl _⟩,
    fun _ => ⟨_, rfl, ?_, fun _ h => by cases h⟩⟩
  have hsystem : AnswersCalls [.dict [("role", .str "system"), ("content", .str INSTRUCTIONS)]] :=
    answersCalls_block rfl fun _ h => by cases h
  have huser : AnswersCalls [.dict [("role", .str "user"), ("content", .str run.instruction)]] :=
    answersCalls_block rfl fun _ h => by cases h
  exact answersCalls_append hsystem huser fun _ h => by
    cases h
    rfl

/-- What the body of the `try` leaves. -/
theorem body_sent (run : AgentRun) :
    Sent run (run.body (run.log run.runConfig run.initial)).2 ∧
      (run.body (run.log run.runConfig run.initial)).2.attempts ≤ run.settings.maxTurns := by
  have hstart := talk_start run
  have hloop := loop_sent run.settings.maxTurns 1 _ hstart
  have hzero : (run.log run.runConfig run.initial).attempts = 0 := rfl
  rw [hzero, Nat.zero_add] at hloop
  unfold body
  split
  · exact ⟨hstart.toSent, Nat.zero_le _⟩
  · simp only
    split
    · exact hloop
    · exact hloop

/-- The end of a run sends and executes nothing. -/
theorem finish_same (run : AgentRun) (result : Except PyException Unit) (s : AgentState) :
    (run.finish result s).2.requests = s.requests ∧ (run.finish result s).2.executed = s.executed ∧
      (run.finish result s).2.attempts = s.attempts ∧
      (run.finish result s).2.modelCalls = s.modelCalls := by
  have hnotice : (run.finalNotice s).2.requests = s.requests ∧
      (run.finalNotice s).2.executed = s.executed ∧
      (run.finalNotice s).2.attempts = s.attempts ∧
      (run.finalNotice s).2.modelCalls = s.modelCalls := by
    unfold finalNotice
    split
    · exact ⟨rfl, rfl, rfl, rfl⟩
    · split
      · exact ⟨rfl, rfl, rfl, rfl⟩
      · simp only
        split
        · exact ⟨rfl, rfl, rfl, rfl⟩
        · split <;> exact ⟨rfl, rfl, rfl, rfl⟩
  unfold finish
  split
  · rename_i e s' heq
    rwa [heq] at hnotice
  · rename_i s' heq
    rwa [heq] at hnotice

theorem handle_same (run : AgentRun) (result : Except PyException Unit) (s : AgentState) :
    (run.handle result s).requests = s.requests ∧ (run.handle result s).executed = s.executed ∧
      (run.handle result s).attempts = s.attempts ∧
      (run.handle result s).modelCalls = s.modelCalls := by
  unfold handle
  split <;> exact ⟨rfl, rfl, rfl, rfl⟩

/-- **The history protocol of a run.**  Every request answers all earlier calls, in order and
before anything else; each extends the one before; calls are executed only of a completed reply
within its limits; and no more calls are made than there are turns. -/
theorem history_protocol (run : AgentRun) :
    (∀ messages ∈ run.execute.2.requests, AnswersCalls messages) ∧
      run.execute.2.requests.Pairwise (· <+: ·) ∧
      (∀ turn call, (turn, call) ∈ run.execute.2.executed → SafeCall run turn call) ∧
      run.execute.2.attempts ≤ run.settings.maxTurns ∧
      run.execute.2.modelCalls ≤ run.settings.maxTurns := by
  unfold execute
  split
  · obtain ⟨hsent, hattempts⟩ := body_sent run
    unfold handled
    cases hbody : run.body (run.log run.runConfig run.initial) with
    | mk result s =>
    rw [hbody] at hsent hattempts
    simp only
    obtain ⟨hr, he, ha, hm⟩ := handle_same run result s
    obtain ⟨hr', he', ha', hm'⟩ := finish_same run result (run.handle result s)
    rw [hr', he', ha', hm', hr, he, ha, hm]
    exact ⟨hsent.answered, hsent.chain, hsent.safe, hattempts, hsent.counted.trans hattempts⟩
  · have hstart := (talk_start run).toSent
    exact ⟨hstart.answered, hstart.chain, hstart.safe, Nat.zero_le _, Nat.zero_le _⟩

end ReedCode.HarborAgent
