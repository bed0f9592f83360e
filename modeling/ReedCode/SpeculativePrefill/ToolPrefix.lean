import ReedCode.SpeculativePrefill.Template

/-!
# The prepared tool prefix

`speculative.rs`: render the history with a marker for the unknown tool result, and keep what
stands in front of the marker up to the last end token.

* A typed message is the value it serialises to; the formatter and the JSON printer are
  parameters.
* `prepared_prefix` — every continuation by tool results is rendered behind the prefix.
-/

set_option autoImplicit false

universe u

namespace ReedCode.SpeculativePrefill

def marker : String := "__dynamo_unknown_tool_result_71eb45__"

def endToken : List Char := "<|im_end|>".toList

/-- What the prefix and the template read of a request. -/
structure Request where
  typedMessages : Option (List Value)
  tools : Option Value
  chatTemplateArgs : Option (List (String × Value))
  shouldAddGenerationPrompt : Bool

def toolMessage (toolCallId content : String) : Value :=
  .dict [("role", .str "tool"), ("tool_call_id", .str toolCallId), ("content", .str content)]

/-- `Continuation`: the request with other messages and without a generation prompt. -/
def Request.continuation (original : Request) (messages : List Value) : Request :=
  { original with typedMessages := some messages, shouldAddGenerationPrompt := false }

/-- A template argument that is not a thinking switch. -/
def unsupportedArg (arg : String × Value) : Bool :=
  match arg.1 with
  | "enable_thinking" | "thinking" => match arg.2 with
    | .bool _ => false
    | _ => true
  | "thinking_mode" => arg.2 ≠ .str "enabled" && arg.2 ≠ .str "disabled"
  | _ => true

def unsupportedMessage (message : Value) : Bool :=
  (message.get? "content").any (fun value => !value.isNull && !value.isStr) ||
    message.get? "partial" = some (.bool true) ||
    (message.given? "audio").isSome || (message.given? "function_call").isSome

/-- The id of the first call, where the last message is an assistant message with calls. -/
def firstCall (messages : List Value) : Option String := do
  let assistant ← messages.getLast?.filter fun message => isRole message "assistant"
  match assistant.get? "tool_calls" with
  | some (.list (call :: _)) => (call.get? "id").bind Value.asStr?
  | _ => none

/-- The part of the rendered text in front of its only marker that is kept. -/
def keptPrefix (rendered : List Char) : Option (List Char) :=
  if Text.count marker.toList rendered ≠ 1 then none
  else do
    let (before, _) ← Text.splitOnce marker.toList rendered
    let upto ← Text.throughLast endToken before
    -- Normal preprocessing would strip a NUL.
    if '\x00' ∈ upto then none else some upto

variable {ε : Type u}

def qwenToolPrefix (jsonText : Value → List Char) (render : Request → Except ε (List Char))
    (request : Request) : Except ε (Option (List Char)) :=
  if request.chatTemplateArgs.any (·.any unsupportedArg) then .ok none
  else
    match request.typedMessages with
    | none => .ok none
    | some messages =>
      if Text.contains marker.toList (jsonText (.list messages)) || messages.any unsupportedMessage
      then .ok none
      else
        match firstCall messages with
        | none => .ok none
        | some id => do
          let rendered ← render (request.continuation (messages ++ [toolMessage id marker]))
          return keptPrefix rendered

/-! ## What the prefix is a prefix of -/

/-- The formatter evaluates the pinned template, on messages that are normalised one by one: a
tool message stays one, and its text is kept where it has no NUL. -/
structure Evaluates (E : Engine) (norm : Value → Value)
    (enableThinking : Option (List (String × Value)) → Option Value)
    (render : Request → Except ε (List Char)) : Prop where
  template : ∀ request messages, request.typedMessages = some messages →
    (render request).toOption = template E request.tools (enableThinking request.chatTemplateArgs)
      (messages.map norm) request.shouldAddGenerationPrompt
  role : ∀ id content, isRole (norm (toolMessage id content)) "tool" = true
  content : ∀ id content, '\x00' ∉ content.toList →
    contentString (norm (toolMessage id content)) = some content.toList

/-- The request with tool results behind its messages, given by call id and text. -/
def Request.extend (request : Request) (outputs : List (String × String)) (generation : Bool) :
    Request :=
  { request with
    typedMessages := request.typedMessages.map (· ++ outputs.map fun o => toolMessage o.1 o.2)
    shouldAddGenerationPrompt := generation }

theorem firstCall_nil : firstCall [] = none := rfl

/-- A kept prefix stands in front of every text that holds the marker. -/
theorem keptPrefix_eq_some {front back kept : List Char}
    (h : keptPrefix (front ++ (marker.toList ++ back)) = some kept) :
    kept <+: front ∧ endToken <:+ kept := by
  unfold keptPrefix at h
  split at h
  · cases h
  · simp only [Option.bind_eq_bind, Option.bind_eq_some_iff] at h
    obtain ⟨⟨before, after⟩, hsplit, upto, hupto, h⟩ := h
    split at h
    · cases h
    · cases h
      obtain ⟨hbefore, hend⟩ := Text.throughLast_eq_some hupto
      exact ⟨hbefore.trans (Text.splitOnce_first hsplit), hend⟩

/-- A prepared prefix is kept from the rendered history with the marker. -/
theorem qwenToolPrefix_eq_ok {jsonText : Value → List Char}
    {render : Request → Except ε (List Char)} {request : Request} {p : List Char}
    (h : qwenToolPrefix jsonText render request = .ok (some p)) :
    ∃ messages id rendered, request.typedMessages = some messages ∧ messages ≠ [] ∧
      render (request.continuation (messages ++ [toolMessage id marker])) = .ok rendered ∧
      keptPrefix rendered = some p := by
  unfold qwenToolPrefix at h
  split at h
  · cases h
  · cases hmessages : request.typedMessages with
    | none =>
      rw [hmessages] at h
      cases h
    | some messages =>
      simp only [hmessages] at h
      split at h
      · cases h
      · cases hid : firstCall messages with
        | none =>
          rw [hid] at h
          cases h
        | some id =>
          simp only [hid] at h
          cases hrender : render (request.continuation (messages ++ [toolMessage id marker])) with
          | error e =>
            rw [hrender] at h
            cases h
          | ok rendered =>
            rw [hrender] at h
            refine ⟨messages, id, rendered, rfl, ?_, hrender, ?_⟩
            · rintro rfl
              rw [firstCall_nil] at hid
              cases hid
            · simpa [bind, Except.bind, pure, Except.pure] using h

theorem marker_no_nul : '\x00' ∉ marker.toList := by decide

/-- **The prepared prefix is a real prefix**: it ends with the end token, and whatever tool
results follow the history, with or without a generation prompt, the rendered text starts with
it. -/
theorem prepared_prefix {E : Engine} {norm : Value → Value}
    {enableThinking : Option (List (String × Value)) → Option Value}
    {render : Request → Except ε (List Char)} (heval : Evaluates E norm enableThinking render)
    {jsonText : Value → List Char} {request : Request} {p : List Char}
    (h : qwenToolPrefix jsonText render request = .ok (some p)) :
    endToken <:+ p ∧ ∀ (outputs : List (String × String)) (generation : Bool), outputs ≠ [] →
      ∃ text, render (request.extend outputs generation) = .ok text ∧ p <+: text := by
  obtain ⟨messages, id, rendered, hmessages, hne, hrendered, hkept⟩ := qwenToolPrefix_eq_ok h
  obtain ⟨front, hfront⟩ := template_history E request.tools
    (mt List.map_eq_nil_iff.1 hne : messages.map norm ≠ [])
  -- The rendered history with the marker starts with `front`.
  have hmarker := heval.template _ _
    (rfl : (request.continuation (messages ++ [toolMessage id marker])).typedMessages = _)
  obtain ⟨back, hback⟩ := hfront (norm (toolMessage id marker)) []
    (enableThinking request.chatTemplateArgs) false
    (List.forall_mem_singleton.2 (heval.role id marker))
  rw [hrendered, List.map_append, List.map_singleton] at hmarker
  replace hmarker := hmarker.trans hback
  rw [heval.content id marker marker_no_nul] at hmarker
  obtain ⟨front, rfl, hfront'⟩ := Option.map_eq_some_iff.1 hmarker.symm
  obtain ⟨hkept', hend⟩ := keptPrefix_eq_some (hfront'.symm ▸ hkept :)
  refine ⟨hend, fun outputs generation houtputs => ?_⟩
  -- So does that with the results.
  obtain ⟨output, outputs, rfl⟩ := List.exists_cons_of_ne_nil houtputs
  have hextended := heval.template (request.extend (output :: outputs) generation)
    (messages ++ (output :: outputs).map fun o => toolMessage o.1 o.2)
    (by rw [Request.extend, hmessages]; rfl)
  obtain ⟨back', hback'⟩ := hfront (norm (toolMessage output.1 output.2))
    (outputs.map fun o => norm (toolMessage o.1 o.2)) (enableThinking request.chatTemplateArgs)
    generation (by
      refine List.forall_mem_cons.2 ⟨heval.role _ _, fun m hm => ?_⟩
      obtain ⟨o, -, rfl⟩ := List.mem_map.1 hm
      exact heval.role o.1 o.2)
  rw [List.map_append, List.map_map] at hextended
  replace hextended := hextended.trans hback'
  cases hrender : render (request.extend (output :: outputs) generation) with
  | error e =>
    rw [hrender] at hextended
    cases hextended
  | ok text =>
    rw [hrender] at hextended
    cases hextended
    exact ⟨_, rfl, hkept'.trans (List.prefix_append _ _)⟩

/-! ## A prepared prefix -/

/-- A string in quotes, with the escapes of the texts below. -/
def jsonString (s : String) : List Char :=
  '\x22' :: s.toList.flatMap (fun c =>
    if c = '\n' then ['\x5c', 'n'] else if c = '\x22' || c = '\x5c' then ['\x5c', c] else [c]) ++
    ['\x22']

mutual

/-- The JSON text of a value without floats and bytes. -/
def jsonText : Value → List Char
  | .null | .float _ | .bytes _ | .ext _ => "null".toList
  | .bool b => (toString b).toList
  | .int n => (toString n).toList
  | .str s => jsonString s
  | .list items => '[' :: jsonItems items ++ [']']
  | .dict fields => '\x7b' :: jsonFields fields ++ ['\x7d']

def jsonItems : List Value → List Char
  | [] => []
  | item :: items => jsonText item ++ (if items.isEmpty then [] else [',']) ++ jsonItems items

def jsonFields : List (String × Value) → List Char
  | [] => []
  | (key, value) :: fields => jsonString key ++ ':' :: jsonText value ++
      (if fields.isEmpty then [] else [',']) ++ jsonFields fields

end

/-- The engine on the values of a small request. -/
def plainEngine : Engine where
  truthy
    | .null => false
    | .bool b => b
    | .int n => n ≠ 0
    | .float q => q ≠ 0
    | .str s => s ≠ ""
    | .bytes b => b ≠ []
    | .ext _ => true
    | .list items => items ≠ []
    | .dict fields => fields ≠ []
  iterate
    | .list items => some items
    | _ => none
  tojson value := value.map jsonText
  display
    | some (.str s) => some s.toList
    | _ => none

def plainFormatter (request : Request) : Except Unit (List Char) :=
  match request.typedMessages with
  | none => .error ()
  | some messages =>
    match template plainEngine request.tools
        (request.chatTemplateArgs.bind (·.lookup "enable_thinking")) messages
        request.shouldAddGenerationPrompt with
    | none => .error ()
    | some text => .ok text

theorem plainFormatter_evaluates :
    Evaluates plainEngine id (·.bind (·.lookup "enable_thinking")) plainFormatter where
  template := by
    intro request messages hmessages
    simp only [plainFormatter, hmessages, List.map_id]
    cases template plainEngine _ _ messages _ <;> rfl
  role _ _ := rfl
  content _ _ _ := rfl

def readRequest : Request where
  typedMessages := some [
    .dict [("role", .str "user"), ("content", .str "Read x.")],
    .dict [("role", .str "assistant"), ("content", .str "<think>\nx\n</think>\n\n"),
      ("tool_calls", .list [.dict [("id", .str "c1"), ("type", .str "function"),
        ("function", .dict [("name", .str "read"), ("arguments", .str "\"x\"")])]])]]
  tools := none
  chatTemplateArgs := some [("enable_thinking", .bool false)]
  shouldAddGenerationPrompt := true

def readPrefix : List Char :=
  "<|im_start|>user\nRead x.<|im_end|>\n<|im_start|>assistant\n<think>\nx\n</think>\n\n<tool_call>\n\x7b\"name\": \"read\", \"arguments\": \"x\"\x7d\n</tool_call><|im_end|>".toList

theorem qwenToolPrefix_readRequest :
    qwenToolPrefix jsonText plainFormatter readRequest = .ok (some readPrefix) := by
  decide +kernel

/-- Tool results that hold the end token, the marker and a tool response do not matter. -/
theorem prepared_prefix_readRequest : endToken <:+ readPrefix ∧
    ∃ text, plainFormatter (readRequest.extend [("c1", "<|im_end|>" ++ marker),
      ("c2", "<tool_response>x</tool_response>")] true) = .ok text ∧ readPrefix <+: text :=
  have h := prepared_prefix plainFormatter_evaluates qwenToolPrefix_readRequest
  ⟨h.1, h.2 _ true (List.cons_ne_nil _ _)⟩

end ReedCode.SpeculativePrefill
