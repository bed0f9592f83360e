import ReedCode.PyValue
import ReedCode.Lib.Runs
import ReedCode.SpeculativePrefill.ToolPrefix

/-!
# Predicting the prefix of the next turn

`PinnedQwen` of `prepare.py`, `ChatPredictor` of `controller.py` and `TokenBudget.ids` of
`support.py`: render the known messages with a sentinel behind them, and keep what stands in front
of it up to the last `<|im_start|>`.

* The pinned template is that of the tool prefix; the template engine, `json.dumps` and the
  tokenizer are parameters (`PinnedQwen`).
* `Pinned` — the tokenizer splits a text at the boundary marker, which is one token.
* `prediction_sent` — what is predicted is a prefix of what the next turn sends.
-/

set_option autoImplicit false

namespace ReedCode.NextTurn

open SpeculativePrefill (Engine template contentString isRole isQuery roleOf)

def SENTINEL : String := "__REEDCODE_UNOBSERVED_FUTURE_CONTENT_74932__"

def imStart : List Char := "<|im_start|>".toList

def aligned (n : Nat) : Nat := n / 16 * 16

inductive PyError where
  | valueError (text : String)
  | keyError (key : String)
  | attributeError
  | typeError
  | templateError
  deriving DecidableEq, Repr

abbrev Py (α : Type) := Except PyError α

structure PinnedQwen where
  engine : Engine
  dumps : Value → List Char
  encode : List Char → List Nat

def orError {α : Type} (error : PyError) : Option α → Py α
  | some a => .ok a
  | none => .error error

/-- `value[key]` of an object. -/
def item (value : Value) (key : String) : Py Value :=
  if value.isObject then orError (.keyError key) (value.get? key) else .error .typeError

/-- A value that has to be a list. -/
def items (error : PyError) : Value → Py (List Value)
  | .list items => .ok items
  | _ => .error error

/-- The keys of an object, in no order. -/
def keys : Value → List String
  | .dict fields => fields.map Prod.fst
  | _ => []

namespace PinnedQwen

variable (q : PinnedQwen)

/-- `self.template.render(messages=..., tools=..., add_generation_prompt=True,
enable_thinking=True)`. -/
def render (messages : List Value) (tools : Value) : Py (List Char) :=
  orError .templateError (template q.engine (some tools) (some (.bool true)) messages true)

/-- The text in front of the sentinel, up to the last marker. -/
def boundary (text : List Char) : Py (List Char) :=
  match Text.splitOnce SENTINEL.toList text with
  | none => .error (.valueError "substring not found")
  | some (before, _) =>
    orError (.valueError "No atomic boundary before unknown content") (Text.throughLast imStart before)

def predictText (knownState : Value) (kind : String) : Py (List Char) := do
  Except.failIf (kind ≠ "user" ∧ kind ≠ "tool") (.valueError "Unknown boundary type")
  Except.failIf (knownState.isObject = false) .typeError
  Except.failIf ((keys knownState).any (fun key =>
      !(["messages", "tools", "enable_thinking"].contains key)) = true ∨
      (knownState.get? "enable_thinking").getD (.bool true) ≠ .bool true)
    (.valueError "Only pinned thinking-enabled message/tool snapshots are supported")
  Except.failIf (Text.contains SENTINEL.toList (q.dumps knownState) = true)
    (.valueError "Sentinel collision")
  let messages ← items .attributeError (← item knownState "messages")
  let future : Value := .dict [("role", .str kind), ("content", .str SENTINEL)]
  boundary (← q.render (messages ++ [future]) (knownState.get "tools"))

def predict (knownState : Value) (kind : String) : Py (List Nat) := do
  let ids := q.encode (← q.predictText knownState kind)
  Except.failIf (ids.getLast? ≠ some 151644) (.valueError "Boundary encoding changed")
  return ids.take (aligned ids.length)

end PinnedQwen

/-! ## Requests of the controller -/

/-- A function tool whose parameters are required strings. -/
def stringTool (name description : String) (parameters : List String) : Value :=
  .dict [("type", .str "function"), ("function", .dict [("name", .str name),
    ("description", .str description),
    ("parameters", .dict [("type", .str "object"),
      ("properties", .dict (parameters.map fun p => (p, .dict [("type", .str "string")]))),
      ("required", .list (parameters.map .str)), ("additionalProperties", .bool false)]),
    ("strict", .bool true)])]

/-- `tools.json`. -/
def TOOLS : Value :=
  .list [stringTool "read_file" "Read a text file in the coding workspace." ["path"],
    stringTool "write_file" "Write complete contents to a file." ["path", "content"],
    stringTool "bash" "Run a shell command in the coding workspace." ["command"]]

/-- The request for a history; 0.6 and 0.95 are the nearest doubles. -/
def bodyFor (history cacheSalt : Value) : Value :=
  .dict [("model", .str "Qwen/Qwen3-8B"), ("messages", history), ("tools", TOOLS),
    ("tool_choice", .str "auto"), ("stream", .bool true),
    ("stream_options", .dict [("include_usage", .bool true)]),
    ("max_completion_tokens", .int 8192),
    ("temperature", .float (5404319552844595 / 9007199254740992)),
    ("top_p", .float (4278419646001971 / 4503599627370496)), ("seed", .int 20261015),
    ("chat_template_kwargs", .dict [("enable_thinking", .bool true)]),
    ("nvext", .dict [("cache_salt", cacheSalt),
      ("extra_fields", .list [.str "completion_token_ids", .str "engine_data"])])]

/-- `ChatPredictor.__call__`. -/
def chatPredictor (q : PinnedQwen) (snapshot : Value) : Py (List Nat) := do
  Except.failIf (snapshot.isObject = false ∨
      (keys snapshot).any (fun key => !(["request", "assistant"].contains key)) = true ∨
      (snapshot.get? "request").isNone ∨ (snapshot.get? "assistant").isNone)
    (.valueError "Only a completed prior request and assistant are allowed")
  let body ← item snapshot "request"
  let messages ← item body "messages"
  let cacheSalt ← item (← item body "nvext") "cache_salt"
  let expected := bodyFor messages cacheSalt
  -- values that are equal to no other are the same objects in both
  Except.failIf (body.pyEq expected = false ∧ body ≠ expected)
    (.valueError "Request differs from the fixed thinking-enabled chat settings")
  let known ← items .typeError messages
  let assistant ← item snapshot "assistant"
  let tools ← item body "tools"
  q.predict (.dict [("messages", .list (known ++ [assistant])), ("tools", tools),
    ("enable_thinking", .bool true)]) "user"

/-- `TokenBudget.ids`, with the same template and tokenizer. -/
def tokenBudgetIds (q : PinnedQwen) (body : Value) : Py (List Nat) := do
  let messages ← items .typeError (← item body "messages")
  let tools ← item body "tools"
  let rendered ← q.render messages tools
  return q.encode rendered

/-! ## What the tokenizer does -/

/-- The tokenizer splits a text at the boundary marker, which is one token. -/
structure Pinned (q : PinnedQwen) : Prop where
  splits : ∀ before after : List Char,
    q.encode (before ++ (imStart ++ after)) = q.encode before ++ 151644 :: q.encode after
  atomic : q.encode imStart = [151644]

theorem Pinned.encode_nil {q : PinnedQwen} (h : Pinned q) : q.encode [] = [] := by
  have hsplit := h.splits [] []
  rw [List.nil_append, List.append_nil, h.atomic] at hsplit
  have hlen := congrArg List.length hsplit
  simp only [List.length_append, List.length_cons, List.length_nil] at hlen
  exact List.eq_nil_of_length_eq_zero (by omega)

/-- A text that ends with the marker is encoded to a prefix. -/
theorem Pinned.encode_prefix {q : PinnedQwen} (h : Pinned q) {text full : List Char}
    (hend : imStart <:+ text) (hfull : text <+: full) : q.encode text <+: q.encode full := by
  obtain ⟨before, rfl⟩ := hend
  obtain ⟨after, rfl⟩ := hfull
  have hshort := h.splits before []
  rw [List.append_nil, h.encode_nil] at hshort
  rw [List.append_assoc, h.splits, hshort]
  exact ⟨q.encode after, by simp⟩

/-! ## What is predicted -/

section Predict

variable {q : PinnedQwen}

theorem orError_eq_ok {α : Type} {error : PyError} {x : Option α} {a : α} :
    orError error x = .ok a ↔ x = some a := by
  cases x <;> simp [orError]

theorem items_eq_ok {error : PyError} {v : Value} {xs : List Value} (h : items error v = .ok xs) :
    v = .list xs := by
  cases v <;> cases h
  rfl

theorem item_eq_ok {v w : Value} {key : String} (h : item v key = .ok w) : v.get? key = some w := by
  unfold item at h
  split at h
  · exact orError_eq_ok.1 h
  · cases h

/-- The boundary stands in front of the first sentinel, so in front of any text that holds it. -/
theorem boundary_eq_ok {front back text : List Char}
    (h : PinnedQwen.boundary (front ++ (SENTINEL.toList ++ back)) = .ok text) :
    text <+: front ∧ imStart <:+ text := by
  unfold PinnedQwen.boundary at h
  split at h
  · cases h
  · rename_i before after hsplit
    obtain ⟨hbefore, hend⟩ := Text.throughLast_eq_some (orError_eq_ok.1 h)
    exact ⟨hbefore.trans (Text.splitOnce_first hsplit), hend⟩

/-- The message that stands for the unknown content. -/
def future (kind : String) : Value := .dict [("role", .str kind), ("content", .str SENTINEL)]

theorem predictText_eq_ok {knownState : Value} {kind : String} {text : List Char}
    (h : q.predictText knownState kind = .ok text) :
    ∃ messages rendered, knownState.get? "messages" = some (.list messages) ∧
      q.render (messages ++ [future kind]) (knownState.get "tools") = .ok rendered ∧
      PinnedQwen.boundary rendered = .ok text := by
  simp only [PinnedQwen.predictText, Except.bind_eq_ok_iff] at h
  obtain ⟨-, -, -, -, -, -, -, -, value, hvalue, messages, hmessages, rendered, hrendered, h⟩ := h
  rw [items_eq_ok hmessages] at hvalue
  exact ⟨messages, rendered, item_eq_ok hvalue, hrendered, h⟩

/-- The text of a user message that is not wrapped as a tool response. -/
def Unwrapped (content : String) : Prop :=
  ¬ ("<tool_response>".toList <+: content.toList ∧ "</tool_response>".toList <:+ content.toList)

theorem isQuery_of_unwrapped {message : Value} {content : String}
    (hrole : message.get? "role" = some (.str "user"))
    (hcontent : message.get? "content" = some (.str content)) (h : Unwrapped content) :
    isQuery message = true ∧ contentString message = some content.toList := by
  have hstring : contentString message = some content.toList := by
    rw [contentString, hcontent]
    rfl
  refine ⟨?_, hstring⟩
  have huser : isRole message "user" = true := by simp [isRole, roleOf, hrole]
  rw [isQuery, huser, hstring, Bool.true_and, Option.any_some, Bool.not_eq_true',
    Bool.and_eq_false_iff]
  rcases not_and_or.1 h with hfront | hback
  · exact .inl (Bool.eq_false_iff.2 fun hp => hfront (List.isPrefixOf_iff_prefix.1 hp))
  · exact .inr (Bool.eq_false_iff.2 fun hs => hback (List.isSuffixOf_iff_suffix.1 hs))

theorem future_unwrapped : Unwrapped SENTINEL := by
  unfold Unwrapped
  decide +kernel

/-- **The user boundary**: every next user query is rendered behind the prediction. -/
theorem predictText_user {knownState : Value} {text : List Char}
    (h : q.predictText knownState "user" = .ok text) :
    imStart <:+ text ∧ ∃ messages, knownState.get? "messages" = some (.list messages) ∧
      ∀ message content, message.get? "role" = some (.str "user") →
        message.get? "content" = some (.str content) → Unwrapped content →
        ∃ full, q.render (messages ++ [message]) (knownState.get "tools") = .ok full ∧
          text <+: full := by
  obtain ⟨messages, rendered, hmessages, hrendered, hboundary⟩ := predictText_eq_ok h
  obtain ⟨hquery, hstring⟩ : isQuery (future "user") = true ∧
      contentString (future "user") = some SENTINEL.toList :=
    isQuery_of_unwrapped rfl rfl future_unwrapped
  obtain ⟨back, hback⟩ := SpeculativePrefill.template_query q.engine
    (some (knownState.get "tools")) messages hquery hstring (some (.bool true)) true
  have htemplate := orError_eq_ok.1 hrendered
  rw [hback] at htemplate
  obtain ⟨front, hfront, rfl⟩ := Option.map_eq_some_iff.1 htemplate
  obtain ⟨htext, hend⟩ := boundary_eq_ok hboundary
  refine ⟨hend, messages, hmessages, fun message content hrole hcontent hunwrapped => ?_⟩
  -- the front of the prompt is the same for every query
  obtain ⟨hquery', hstring'⟩ := isQuery_of_unwrapped hrole hcontent hunwrapped
  obtain ⟨back', hback'⟩ := SpeculativePrefill.template_query q.engine
    (some (knownState.get "tools")) messages hquery' hstring' (some (.bool true)) true
  rw [hfront] at hback'
  exact ⟨_, orError_eq_ok.2 hback', htext.trans (List.prefix_append _ _)⟩

/-- **The tool boundary**: every list of tool results is rendered behind the prediction. -/
theorem predictText_tool {knownState : Value} {text : List Char}
    (h : q.predictText knownState "tool" = .ok text) :
    imStart <:+ text ∧ ∃ messages, knownState.get? "messages" = some (.list messages) ∧
      ∀ results : List Value, results ≠ [] →
        (∀ message ∈ results, message.get? "role" = some (.str "tool")) →
        ∃ full, q.render (messages ++ results) (knownState.get "tools") = .ok full ∧
          text <+: full := by
  obtain ⟨messages, rendered, hmessages, hrendered, hboundary⟩ := predictText_eq_ok h
  obtain ⟨front, hfronts⟩ := SpeculativePrefill.template_tools q.engine
    (some (knownState.get "tools")) messages
  obtain ⟨back, hback⟩ := hfronts (future "tool") [] (some (.bool true)) true
    (List.forall_mem_singleton.2 rfl)
  have hfront := orError_eq_ok.1 hrendered
  rw [hback] at hfront
  obtain ⟨front, rfl, rfl⟩ := Option.map_eq_some_iff.1 hfront
  obtain ⟨htext, hend⟩ := boundary_eq_ok hboundary
  refine ⟨hend, messages, hmessages, fun results hne hroles => ?_⟩
  obtain ⟨first, more, rfl⟩ := List.exists_cons_of_ne_nil hne
  obtain ⟨back', hback'⟩ := hfronts first more (some (.bool true)) true fun message hm => by
    simp [isRole, roleOf, hroles message hm]
  exact ⟨_, orError_eq_ok.2 hback', htext.trans (List.prefix_append _ _)⟩

/-- The predicted IDs are those of the prediction, up to a multiple of 16. -/
theorem predict_eq_ok {knownState : Value} {kind : String} {ids : List Nat}
    (h : q.predict knownState kind = .ok ids) :
    ∃ text, q.predictText knownState kind = .ok text ∧ ids <+: q.encode text ∧
      16 ∣ ids.length := by
  simp only [PinnedQwen.predict, Except.bind_eq_ok_iff] at h
  obtain ⟨text, htext, -, -, h⟩ := h
  cases h
  refine ⟨text, htext, List.take_prefix _ _, ?_⟩
  have hle : aligned (q.encode text).length ≤ (q.encode text).length := Nat.div_mul_le_self _ _
  rw [List.length_take, Nat.min_eq_left hle]
  exact Nat.dvd_mul_left _ _

theorem chatPredictor_eq_ok {snapshot : Value} {ids : List Nat}
    (h : chatPredictor q snapshot = .ok ids) :
    ∃ body messages assistant tools, snapshot.get? "request" = some body ∧
      body.get? "messages" = some (.list messages) ∧
      snapshot.get? "assistant" = some assistant ∧ body.get? "tools" = some tools ∧
      q.predict (.dict [("messages", .list (messages ++ [assistant])), ("tools", tools),
        ("enable_thinking", .bool true)]) "user" = .ok ids := by
  simp only [chatPredictor, Except.bind_eq_ok_iff] at h
  obtain ⟨-, -, body, hbody, value, hvalue, nvext, -, salt, -, -, -, messages, hmessages, assistant,
    hassistant, tools, htools, h⟩ := h
  rw [items_eq_ok hmessages] at hvalue
  exact ⟨body, messages, assistant, tools, item_eq_ok hbody, item_eq_ok hvalue,
    item_eq_ok hassistant, item_eq_ok htools, h⟩

/-- The request for the next turn is rendered behind the known messages. -/
theorem tokenBudgetIds_eq_ok {body tools : Value} {messages : List Value} {full : List Char}
    (hmessages : body.get? "messages" = some (.list messages)) (htools : body.get? "tools" = some tools)
    (h : q.render messages tools = .ok full) : tokenBudgetIds q body = .ok (q.encode full) := by
  have hobject : body.isObject = true := by
    cases body <;> simp [Value.get?, Value.isObject] at hmessages ⊢
  simp [tokenBudgetIds, item, hobject, hmessages, htools, orError, items, h, bind, Except.bind, pure,
    Except.pure]

end Predict

/-- **Only what the next turn sends is prepared.** A predicted text is a prefix of the prompt of
every next user query that is not wrapped as a tool response, or of every list of tool results;
and the predicted IDs, a multiple of 16 of them, are a prefix of those of the next request. -/
theorem prediction_sent (q : PinnedQwen) (hq : Pinned q) :
    (∀ knownState text, q.predictText knownState "user" = .ok text →
      ∃ messages, knownState.get? "messages" = some (.list messages) ∧
        ∀ message content, message.get? "role" = some (.str "user") →
          message.get? "content" = some (.str content) → Unwrapped content →
          ∃ full, q.render (messages ++ [message]) (knownState.get "tools") = .ok full ∧
            text <+: full) ∧
    (∀ knownState text, q.predictText knownState "tool" = .ok text →
      ∃ messages, knownState.get? "messages" = some (.list messages) ∧
        ∀ results : List Value, results ≠ [] →
          (∀ message ∈ results, message.get? "role" = some (.str "tool")) →
          ∃ full, q.render (messages ++ results) (knownState.get "tools") = .ok full ∧
            text <+: full) ∧
    ∀ snapshot ids, chatPredictor q snapshot = .ok ids → 16 ∣ ids.length ∧
      ∃ body messages assistant, snapshot.get? "request" = some body ∧
        body.get? "messages" = some (.list messages) ∧
        snapshot.get? "assistant" = some assistant ∧
        ∀ next message content, message.get? "role" = some (.str "user") →
          message.get? "content" = some (.str content) → Unwrapped content →
          next.get? "messages" = some (.list (messages ++ [assistant, message])) →
          next.get? "tools" = body.get? "tools" →
          ∃ full, tokenBudgetIds q next = .ok full ∧ ids <+: full := by
  refine ⟨fun knownState text h => (predictText_user h).2,
    fun knownState text h => (predictText_tool h).2, fun snapshot ids h => ?_⟩
  obtain ⟨body, messages, assistant, tools, hbody, hmessages, hassistant, htools, hpredict⟩ :=
    chatPredictor_eq_ok h
  obtain ⟨text, htext, hids, hdvd⟩ := predict_eq_ok hpredict
  refine ⟨hdvd, body, messages, assistant, hbody, hmessages, hassistant,
    fun next message content hrole hcontent hunwrapped hnext hsame => ?_⟩
  obtain ⟨hend, known, hknown, hall⟩ := predictText_user htext
  cases hknown
  obtain ⟨full, hfull, hstarts⟩ := hall message content hrole hcontent hunwrapped
  rw [List.append_assoc] at hfull
  exact ⟨_, tokenBudgetIds_eq_ok hnext (hsame.trans htools) hfull,
    hids.trans (hq.encode_prefix hend hstarts)⟩

/-! ## A prediction -/

/-- The tokens of the messages below. -/
def vocabulary : List (List Char × Nat) :=
  [(imStart, 151644), ("<|im_end|>".toList, 151645), ("user".toList, 872),
    ("assistant".toList, 77091), (['\n'], 198), ("Hello".toList, 9707)]

/-- The tokens of a text behind a number of characters of the token before; any other character is
a token of its own. -/
def scan : Nat → List Char → List Nat
  | _, [] => []
  | k + 1, _ :: text => scan k text
  | 0, c :: text =>
    match vocabulary.find? fun token => decide (token.1 <+: c :: text) with
    | some token => token.2 :: scan (token.1.length - 1) text
    | none => (1000000 + c.toNat) :: scan 0 text

/-- No token has the first character of the marker further behind. -/
theorem vocabulary_tail : ∀ token ∈ vocabulary, token.1 ≠ [] ∧ '<' ∉ token.1.tail := by
  decide +kernel

/-- No token reaches over the start of a marker. -/
theorem prefix_marker {token c : List Char} {after : List Char} (hc : c ≠ [])
    (htail : '<' ∉ token.tail) : token <+: c ++ (imStart ++ after) ↔ token <+: c := by
  refine ⟨fun h => ?_, fun h => h.trans (List.prefix_append _ _)⟩
  rcases Nat.le_total token.length c.length with hle | hle
  · exact List.prefix_of_prefix_length_le h (List.prefix_append _ _) hle
  · obtain ⟨rest, rfl⟩ := List.prefix_of_prefix_length_le (List.prefix_append _ _) h hle
    obtain ⟨more, hmore⟩ := (List.prefix_append_right_inj c).1 h
    cases rest with
    | nil => rw [List.append_nil]
    | cons x rest =>
      obtain ⟨first, c, rfl⟩ := List.exists_cons_of_ne_nil hc
      have hx : x = '<' := (List.cons.inj hmore).1
      exact absurd (by simp [hx]) htail

theorem find?_congr {α : Type} {p q : α → Bool} : ∀ {xs : List α}, (∀ x ∈ xs, p x = q x) →
    xs.find? p = xs.find? q
  | [], _ => rfl
  | x :: xs, h => by
    rw [List.find?_cons, List.find?_cons, h x List.mem_cons_self,
      find?_congr fun y hy => h y (List.mem_cons_of_mem _ hy)]

theorem scan_marker (after : List Char) : ∀ (text : List Char) (k : Nat), k ≤ text.length →
    scan k (text ++ (imStart ++ after)) = scan k text ++ 151644 :: scan 0 after
  | [], 0, _ => rfl
  | _ :: text, k + 1, h => scan_marker after text k (Nat.le_of_succ_le_succ h)
  | c :: text, 0, _ => by
    have hfind : (vocabulary.find? fun token => decide (token.1 <+: c :: (text ++ (imStart ++ after)))) =
        vocabulary.find? fun token => decide (token.1 <+: c :: text) := by
      refine find?_congr fun token htoken => ?_
      exact decide_eq_decide.2 (prefix_marker (List.cons_ne_nil c text)
        (vocabulary_tail token htoken).2)
    rw [List.cons_append, scan, scan, hfind]
    split
    · rename_i token hsome
      have hstarts : token.1 <+: c :: text := by simpa using List.find?_some hsome
      have hlen := hstarts.length_le
      rw [List.length_cons] at hlen
      rw [scan_marker after text _ (by omega)]
      rfl
    · rw [scan_marker after text 0 (Nat.zero_le _)]
      rfl

def exampleQwen : PinnedQwen where
  engine := SpeculativePrefill.plainEngine
  dumps := SpeculativePrefill.jsonText
  encode := scan 0

theorem exampleQwen_pinned : Pinned exampleQwen where
  splits before after := scan_marker after before 0 (Nat.zero_le _)
  atomic := by decide +kernel

def hello (role : String) : Value := .dict [("role", .str role), ("content", .str "Hello")]

def exampleState : Value :=
  .dict [("messages", .list [hello "user", hello "assistant", hello "user", hello "assistant"])]

/-- The first two exchanges, and the marker of the third, are a prefix of the prompt with it. -/
theorem prediction_sent_exampleState :
    exampleQwen.predict exampleState "user" = .ok
        [151644, 872, 198, 9707, 151645, 198, 151644, 77091, 198, 9707, 151645, 198, 151644, 872,
          198, 9707] ∧
      ∃ text full, exampleQwen.predictText exampleState "user" = .ok text ∧
        exampleQwen.render [hello "user", hello "assistant", hello "user", hello "assistant",
          hello "user"] .null = .ok full ∧ text <+: full := by
  have hsome : (exampleQwen.predictText exampleState "user").toOption.isSome = true := by
    decide +kernel
  refine ⟨by decide +kernel, ?_⟩
  cases htext : exampleQwen.predictText exampleState "user" with
  | error e =>
    rw [htext] at hsome
    cases hsome
  | ok text =>
    obtain ⟨messages, hmessages, hall⟩ :=
      (prediction_sent exampleQwen exampleQwen_pinned).1 exampleState text htext
    cases hmessages
    obtain ⟨full, hfull, hstarts⟩ := hall (hello "user") "Hello" rfl rfl (by
      unfold Unwrapped
      decide +kernel)
    exact ⟨text, full, rfl, hfull, hstarts⟩

end ReedCode.NextTurn
