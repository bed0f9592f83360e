import ReedCode.Lib.Text
import ReedCode.Value

/-!
# The pinned chat template

`qwen3-tool-prefix.jinja` as a function of the tools and the messages; `none` is an evaluation
error.  Every tag of the template strips the blanks in front of it, so that the output is what
its expressions print.

* The template engine's own operations are a parameter (`Engine`); a string prints itself.
* `lastQueryIndex_append`, `renderFrom_append` — what is rendered in front of tool messages
  does not depend on them.
-/

set_option autoImplicit false

namespace ReedCode.SpeculativePrefill

/-- Truth, iteration, the `tojson` filter and printing of a value; `none` for an undefined
value. -/
structure Engine where
  truthy : Value → Bool
  iterate : Value → Option (List Value)
  tojson : Option Value → Option (List Char)
  display : Option Value → Option (List Char)

def roleOf (message : Value) : Option Value := message.get? "role"

def isRole (message : Value) (role : String) : Bool := roleOf message = some (.str role)

/-- `message.content` where it is a string. -/
def contentString (message : Value) : Option (List Char) :=
  (message.get? "content").bind fun content => content.asStr?.map String.toList

/-! ## The head of the prompt -/

def toolList (E : Engine) : List Value → Option (List Char)
  | [] => some []
  | tool :: tools => do
    let text ← E.tojson (some tool)
    let rest ← toolList E tools
    return '\n' :: text ++ rest

def toolHeader : List Char :=
  "# Tools\n\nYou may call one or more functions to assist with the user query.\n\nYou are provided with function signatures within <tools></tools> XML tags:\n<tools>".toList

def toolFooter : List Char :=
  "\n</tools>\n\nFor each function call, return a json object with function name and arguments within <tool_call></tool_call> XML tags:\n<tool_call>\n\x7b\"name\": <function-name>, \"arguments\": <args-json-object>\x7d\n</tool_call><|im_end|>\n".toList

/-- The system prompt; `+` of a content that is no string is an error. -/
def header (E : Engine) (tools : Option Value) (messages : List Value) : Option (List Char) := do
  let first ← messages.head?
  match tools.filter E.truthy with
  | some tools =>
    let system ← if isRole first "system" then (contentString first).map (· ++ "\n\n".toList) else some []
    let listed ← (E.iterate tools).bind (toolList E)
    return "<|im_start|>system\n".toList ++ system ++ toolHeader ++ listed ++ toolFooter
  | none =>
    if isRole first "system" then
      (contentString first).map fun content =>
        "<|im_start|>system\n".toList ++ content ++ "<|im_end|>\n".toList
    else some []

/-! ## The last real query -/

/-- A user message that is not a wrapped tool response. -/
def isQuery (message : Value) : Bool :=
  isRole message "user" && (contentString message).any fun content =>
    !("<tool_response>".toList.isPrefixOf content && "</tool_response>".toList.isSuffixOf content)

/-- One turn of the reverse scan, on `ns`. -/
def scanQuery (length : Nat) (ns : Bool × Nat) (loop : Value × Nat) : Bool × Nat :=
  if ns.1 && isQuery loop.1 then (false, (length - 1) - loop.2) else ns

def lastQueryIndex (messages : List Value) : Nat :=
  (messages.reverse.zipIdx.foldl (scanQuery messages.length) (true, messages.length - 1)).2

/-! ## Messages -/

/-- What a message sees of the loop. -/
structure Loop where
  afterQuery : Bool
  first : Bool
  last : Bool
  prevRole : Option Value
  nextRole : Option Value

/-- The reasoning and the content of an assistant message. -/
def reasoningAndContent (message : Value) (content : List Char) : List Char × List Char :=
  match message.get? "reasoning_content" with
  | some (.str reasoning) => (reasoning.toList, content)
  | _ =>
    if Text.contains "</think>".toList content then
      let pieces := Text.splitOn "</think>".toList content
      (Text.trimStart '\n'
          ((Text.splitOn "<think>".toList (Text.trimEnd '\n' (pieces.headD []))).getLastD []),
        Text.trimStart '\n' (pieces.getLastD []))
    else ([], content)

/-- One tool call, behind a line break or not. -/
def renderCall (E : Engine) (newline : Bool) (call : Value) : Option (List Char) := do
  let function := ((call.get? "function").filter E.truthy).getD call
  let name ← E.display (function.get? "name")
  let arguments ← match function.get? "arguments" with
    | some (.str arguments) => some arguments.toList
    | arguments => E.tojson arguments
  return (if newline then ['\n'] else []) ++ "<tool_call>\n\x7b\"name\": \"".toList ++ name ++
    "\", \"arguments\": ".toList ++ arguments ++ "\x7d\n</tool_call>".toList

def renderCalls (E : Engine) (content : List Char) : Bool → List Value → Option (List Char)
  | _, [] => some []
  | first, call :: calls => do
    let text ← renderCall E (!first || !content.isEmpty) call
    let rest ← renderCalls E content false calls
    return text ++ rest

def renderAssistant (E : Engine) (loop : Loop) (message : Value) (content : List Char) :
    Option (List Char) := do
  let (reasoning, content) := reasoningAndContent message content
  let opening :=
    if loop.afterQuery && (loop.last || !reasoning.isEmpty) then
      "<|im_start|>assistant\n<think>\n".toList ++ Text.trim '\n' reasoning ++
        "\n</think>\n\n".toList ++ Text.trimStart '\n' content
    else "<|im_start|>assistant\n".toList ++ content
  let calls ← match (message.get? "tool_calls").filter E.truthy with
    | some calls => (E.iterate calls).bind (renderCalls E content true)
    | none => some []
  return opening ++ calls ++ "<|im_end|>\n".toList

/-- What stands in front of the content of a tool message. -/
def toolOpening (first : Bool) (prevRole : Option Value) : List Char :=
  (if first || prevRole ≠ some (.str "tool") then "<|im_start|>user".toList else []) ++
    "\n<tool_response>\n".toList

/-- What stands behind it. -/
def toolClosing (last : Bool) (nextRole : Option Value) : List Char :=
  "\n</tool_response>".toList ++
    if last || nextRole ≠ some (.str "tool") then "<|im_end|>\n".toList else []

def renderTool (loop : Loop) (content : List Char) : List Char :=
  toolOpening loop.first loop.prevRole ++ content ++ toolClosing loop.last loop.nextRole

def renderMessage (E : Engine) (loop : Loop) (message : Value) : Option (List Char) :=
  let content := (contentString message).getD []
  if isRole message "user" then
    some ("<|im_start|>user\n".toList ++ content ++ "<|im_end|>\n".toList)
  else if isRole message "system" && !loop.first then
    some ("<|im_start|>system\n".toList ++ content ++ "<|im_end|>\n".toList)
  else if isRole message "assistant" then renderAssistant E loop message content
  else if isRole message "tool" then some (renderTool loop content)
  else some []

/-- The loop over the messages, from an index on. -/
def renderFrom (E : Engine) (query : Nat) : Nat → Option Value → List Value → Option (List Char)
  | _, _, [] => some []
  | index, prev, message :: rest => do
    let text ← renderMessage E ⟨index > query, prev.isNone, rest.isEmpty, prev.bind roleOf,
      rest.head?.bind roleOf⟩ message
    let more ← renderFrom E query (index + 1) (some message) rest
    return text ++ more

def generationPrompt (enableThinking : Option Value) : List Char :=
  "<|im_start|>assistant\n".toList ++
    if enableThinking = some (.bool false) then "<think>\n\n</think>\n\n".toList else []

/-- The pinned template. -/
def template (E : Engine) (tools enableThinking : Option Value) (messages : List Value)
    (addGenerationPrompt : Bool) : Option (List Char) := do
  let head ← header E tools messages
  let body ← renderFrom E (lastQueryIndex messages) 0 none messages
  return head ++ body ++ if addGenerationPrompt then generationPrompt enableThinking else []

/-! ## History in front of tool messages -/

theorem isQuery_of_tool {message : Value} (h : isRole message "tool" = true) :
    isQuery message = false := by
  have hrole : roleOf message = some (.str "tool") := of_decide_eq_true h
  simp [isQuery, isRole, hrole]

theorem foldl_scanQuery_done (length : Nat) (query : Nat) : ∀ messages : List (Value × Nat),
    messages.foldl (scanQuery length) (false, query) = (false, query)
  | [] => rfl
  | message :: messages => by
    rw [List.foldl_cons, scanQuery, Bool.false_and, if_neg (by decide)]
    exact foldl_scanQuery_done length query messages

/-- The scan finds an index that does not depend on where it started, or none. -/
theorem foldl_scanQuery (length : Nat) : ∀ messages : List (Value × Nat), ∃ found : Option Nat,
    ∀ start, messages.foldl (scanQuery length) (true, start) = (found.isNone, found.getD start)
  | [] => ⟨none, fun _ => rfl⟩
  | message :: messages => by
    obtain ⟨found, hfound⟩ := foldl_scanQuery length messages
    cases hquery : isQuery message.1 with
    | true =>
      refine ⟨some (length - 1 - message.2), fun start => ?_⟩
      simp only [List.foldl_cons, scanQuery, hquery, Bool.and_self, if_true, foldl_scanQuery_done]
      rfl
    | false =>
      refine ⟨found, fun start => ?_⟩
      simp only [List.foldl_cons, scanQuery, hquery, Bool.and_false, Bool.false_eq_true, if_false]
      exact hfound start

theorem foldl_scanQuery_none (length : Nat) : ∀ {messages : List (Value × Nat)} {ns : Bool × Nat},
    (∀ message ∈ messages, isQuery message.1 = false) →
      messages.foldl (scanQuery length) ns = ns
  | [], _, _ => rfl
  | message :: messages, ns, h => by
    rw [List.foldl_cons, scanQuery, h message List.mem_cons_self, Bool.and_false,
      if_neg (by decide)]
    exact foldl_scanQuery_none length fun m hm => h m (List.mem_cons_of_mem _ hm)

/-- The scan over the history finds the same indices when messages follow it. -/
theorem foldl_scanQuery_shift (length more : Nat) : ∀ (messages : List Value) (k : Nat)
    (ns : Bool × Nat), (messages.zipIdx (more + k)).foldl (scanQuery (length + more)) ns =
      (messages.zipIdx k).foldl (scanQuery length) ns
  | [], _, _ => rfl
  | message :: messages, k, ns => by
    have hindex : length + more - 1 - (more + k) = length - 1 - k := by omega
    rw [List.zipIdx_cons, List.zipIdx_cons, List.foldl_cons, List.foldl_cons, scanQuery, scanQuery,
      hindex, Nat.add_assoc]
    exact foldl_scanQuery_shift length more messages (k + 1) _

/-- **The query in front of tool messages does not depend on them**: for the messages of the
history, being behind it is the same. -/
theorem lastQueryIndex_append (history : List Value) : ∃ found : Option Nat,
    ∀ tools : List Value, tools ≠ [] → (∀ message ∈ tools, isRole message "tool" = true) →
      ∀ index < history.length, (decide (index > lastQueryIndex (history ++ tools))) =
        found.any (index > ·) := by
  obtain ⟨found, hfound⟩ := foldl_scanQuery history.length (history.reverse.zipIdx 0)
  refine ⟨found, fun tools hne htools index hindex => ?_⟩
  have hlast : lastQueryIndex (history ++ tools) =
      found.getD ((history ++ tools).length - 1) := by
    unfold lastQueryIndex
    have hnone : ∀ m ∈ tools.reverse.zipIdx, isQuery m.1 = false := fun m hm => by
      have hm' := List.fst_mem_of_mem_zipIdx hm
      exact isQuery_of_tool (htools m.1 (List.mem_reverse.1 hm'))
    rw [List.reverse_append, List.zipIdx_append, List.foldl_append, foldl_scanQuery_none _ hnone,
      List.length_append, List.length_reverse]
    have hshift := foldl_scanQuery_shift history.length tools.length history.reverse 0
      (true, history.length + tools.length - 1)
    rw [Nat.add_zero] at hshift
    rw [Nat.zero_add, hshift, hfound]
  have hpos := List.length_pos_iff.2 hne
  rw [hlast]
  cases found with
  | none =>
    simp only [Option.getD_none, Option.any_none, decide_eq_false_iff_not, List.length_append]
    omega
  | some query => rfl

/-- The messages of a history in front of a message with a role. -/
def renderUntil (E : Engine) (after : Nat → Bool) (next : Option Value) :
    Nat → Option Value → List Value → Option (List Char)
  | _, _, [] => some []
  | index, prev, message :: rest => do
    let text ← renderMessage E ⟨after index, prev.isNone, false, prev.bind roleOf,
      (rest.head?.map roleOf).getD next⟩ message
    let more ← renderUntil E after next (index + 1) (some message) rest
    return text ++ more

theorem renderUntil_congr (E : Engine) {after after' : Nat → Bool} {role : Option Value} :
    ∀ {history : List Value} {index : Nat} {prev : Option Value},
      (∀ i, index ≤ i → i < index + history.length → after i = after' i) →
        renderUntil E after role index prev history = renderUntil E after' role index prev history
  | [], _, _, _ => rfl
  | message :: rest, index, prev, h => by
    have ih : renderUntil E after role (index + 1) (some message) rest =
        renderUntil E after' role (index + 1) (some message) rest :=
      renderUntil_congr E fun i hi hi' => h i (by omega) (by rw [List.length_cons]; omega)
    unfold renderUntil
    rw [h index (Nat.le_refl _) (by simp), ih]

/-- **The loop over a history and what follows it** is that over the history, which sees only the
role of the message behind it, then that over the rest. -/
theorem renderFrom_split (E : Engine) (query : Nat) (next : Value) (more : List Value) :
    ∀ (history : List Value) (index : Nat) (prev : Option Value),
      renderFrom E query index prev (history ++ next :: more) =
        (renderUntil E (fun i => i > query) (roleOf next) index prev history).bind fun front =>
          (renderFrom E query (index + history.length) (history.getLast?.or prev)
            (next :: more)).map fun back => front ++ back
  | [], index, prev => by simp [renderUntil]
  | message :: rest, index, prev => by
    have hnext : ((rest ++ next :: more).head?.bind roleOf) =
        (rest.head?.map roleOf).getD (roleOf next) := by
      cases rest with
      | nil => rfl
      | cons following rest => rfl
    have hlast : (message :: rest).getLast?.or prev = rest.getLast?.or (some message) := by
      cases rest with
      | nil => rfl
      | cons following rest =>
        rw [List.getLast?_cons_cons, List.getLast?_eq_some_getLast (List.cons_ne_nil following rest)]
        rfl
    have hempty : (rest ++ next :: more).isEmpty = false := by cases rest <;> rfl
    have hindex : index + (message :: rest).length = index + 1 + rest.length := by
      rw [List.length_cons]; omega
    rw [List.cons_append, renderFrom, renderUntil, hnext, hempty, hlast, hindex,
      renderFrom_split E query next more rest]
    simp only [Option.bind_eq_bind, Option.bind_assoc, Option.pure_def]
    cases renderMessage E _ message with
    | none => rfl
    | some text =>
      cases renderUntil E _ _ _ _ rest with
      | none => rfl
      | some front =>
        cases renderFrom E query _ _ (next :: more) with
        | none => rfl
        | some back => simp

/-- The messages of a history that tool messages follow. -/
def renderHistory (E : Engine) (after : Nat → Bool) :
    Nat → Option Value → List Value → Option (List Char)
  | _, _, [] => some []
  | index, prev, message :: rest => do
    let text ← renderMessage E ⟨after index, prev.isNone, false, prev.bind roleOf,
      (rest.head?.map roleOf).getD (some (.str "tool"))⟩ message
    let more ← renderHistory E after (index + 1) (some message) rest
    return text ++ more

theorem renderHistory_eq (E : Engine) (after : Nat → Bool) :
    ∀ (history : List Value) (index : Nat) (prev : Option Value),
      renderHistory E after index prev history =
        renderUntil E after (some (.str "tool")) index prev history
  | [], _, _ => rfl
  | message :: rest, index, prev => by
    rw [renderHistory, renderUntil, renderHistory_eq E after rest]

theorem renderHistory_congr (E : Engine) {after after' : Nat → Bool} {history : List Value}
    {index : Nat} {prev : Option Value}
    (h : ∀ i, index ≤ i → i < index + history.length → after i = after' i) :
    renderHistory E after index prev history = renderHistory E after' index prev history := by
  rw [renderHistory_eq, renderHistory_eq]
  exact renderUntil_congr E h

/-- The loop over history and tool messages is that over the history, then that over the rest. -/
theorem renderFrom_append (E : Engine) (query : Nat) {tool : Value} {tools : List Value}
    (htool : isRole tool "tool" = true) (history : List Value) (index : Nat)
    (prev : Option Value) : renderFrom E query index prev (history ++ tool :: tools) =
      (renderHistory E (fun i => i > query) index prev history).bind fun front =>
        (renderFrom E query (index + history.length) (history.getLast?.or prev)
          (tool :: tools)).map fun back => front ++ back := by
  have hrole : roleOf tool = some (.str "tool") := of_decide_eq_true htool
  rw [renderHistory_eq, ← hrole]
  exact renderFrom_split E query tool tools history index prev

theorem renderMessage_tool (E : Engine) (loop : Loop) {message : Value}
    (h : isRole message "tool" = true) :
    renderMessage E loop message = some (renderTool loop ((contentString message).getD [])) := by
  have hrole : roleOf message = some (.str "tool") := of_decide_eq_true h
  simp [renderMessage, isRole, hrole]

/-- Tool messages are always rendered, behind the opening of the first of them. -/
theorem renderFrom_tools (E : Engine) (query : Nat) : ∀ {tools : List Value} {tool : Value}
    (index : Nat) (prev : Option Value), (∀ message ∈ tool :: tools, isRole message "tool" = true) →
      ∃ back, renderFrom E query index prev (tool :: tools) =
        some (toolOpening prev.isNone (prev.bind roleOf) ++ (contentString tool).getD [] ++ back)
  | [], tool, index, prev, h => by
    rw [renderFrom, renderMessage_tool E _ (h tool List.mem_cons_self), renderTool, renderFrom]
    refine ⟨toolClosing true none, ?_⟩
    simp
  | next :: rest, tool, index, prev, h => by
    obtain ⟨back, hback⟩ := renderFrom_tools E query (index + 1) (some tool)
      fun message hm => h message (List.mem_cons_of_mem _ hm)
    rw [renderFrom, renderMessage_tool E _ (h tool List.mem_cons_self), hback, renderTool]
    refine ⟨toolClosing false (roleOf next) ++ (toolOpening false (roleOf tool) ++
      ((contentString next).getD [] ++ back)), ?_⟩
    simp

/-- **What is rendered in front of the content of the first tool message** does not depend on
the tool messages, the generation prompt and the thinking flag. -/
theorem template_history (E : Engine) (tools : Option Value) {history : List Value}
    (hne : history ≠ []) : ∃ front : Option (List Char), ∀ tool more enableThinking generation,
      (∀ message ∈ tool :: more, isRole message "tool" = true) →
        ∃ back, template E tools enableThinking (history ++ tool :: more) generation =
          front.map fun front => front ++ ((contentString tool).getD [] ++ back) := by
  obtain ⟨found, hfound⟩ := lastQueryIndex_append history
  refine ⟨(header E tools history).bind fun head =>
    (renderHistory E (fun i => found.any (i > ·)) 0 none history).map fun body =>
      head ++ body ++ toolOpening (history.getLast?.or none).isNone
        ((history.getLast?.or none).bind roleOf), fun tool more enableThinking generation htools => ?_⟩
  have hhead : header E tools (history ++ tool :: more) = header E tools history := by
    obtain ⟨first, rest, rfl⟩ := List.exists_cons_of_ne_nil hne
    rfl
  have hbody : renderHistory E (fun i => i > lastQueryIndex (history ++ tool :: more)) 0 none history =
      renderHistory E (fun i => found.any (i > ·)) 0 none history :=
    renderHistory_congr E fun i _ hi =>
      hfound (tool :: more) (List.cons_ne_nil _ _) htools i (by omega)
  obtain ⟨back, hback⟩ := renderFrom_tools E (lastQueryIndex (history ++ tool :: more))
    (0 + history.length) (history.getLast?.or none) htools
  unfold template
  rw [hhead, renderFrom_append E _ (htools tool List.mem_cons_self), hbody, hback]
  refine ⟨back ++ if generation then generationPrompt enableThinking else [], ?_⟩
  cases header E tools history with
  | none => rfl
  | some head =>
    cases renderHistory E _ 0 none history with
    | none => rfl
    | some body => simp

/-! ## History in front of any message -/

/-- The head of the prompt depends on the first message of the history alone, and without one on
that the message behind it is no system message. -/
theorem header_front (E : Engine) (tools : Option Value) (history : List Value) {next : Value}
    (more : List Value) (hnext : isRole next "system" = false) :
    header E tools (history ++ next :: more) = header E tools (history ++ [.null]) := by
  cases history with
  | cons first rest => rfl
  | nil =>
    have hnull : isRole .null "system" = false := rfl
    simp only [header, List.nil_append, List.head?_cons, Option.bind_eq_bind, Option.bind_some,
      hnext, hnull, Bool.false_eq_true, if_false]

/-- What is rendered in front of a message behind the history. -/
def frontOf (E : Engine) (tools : Option Value) (after : Nat → Bool) (next : Option Value)
    (history : List Value) : Option (List Char) :=
  (header E tools (history ++ [.null])).bind fun head =>
    (renderUntil E after next 0 none history).map fun body => head ++ body

/-- **The front of the prompt** depends on what follows the history only by its role and by which
messages are behind the last query. -/
theorem template_split (E : Engine) (tools enableThinking : Option Value) (history : List Value)
    {next : Value} (more : List Value) (generation : Bool)
    (hnext : isRole next "system" = false) {after : Nat → Bool}
    (hafter : ∀ i < history.length,
      decide (i > lastQueryIndex (history ++ next :: more)) = after i) :
    template E tools enableThinking (history ++ next :: more) generation =
      (frontOf E tools after (roleOf next) history).bind fun front =>
        (renderFrom E (lastQueryIndex (history ++ next :: more)) history.length history.getLast?
          (next :: more)).map fun back =>
            front ++ (back ++ if generation then generationPrompt enableThinking else []) := by
  have hbody : renderUntil E (fun i => i > lastQueryIndex (history ++ next :: more)) (roleOf next)
      0 none history = renderUntil E after (roleOf next) 0 none history :=
    renderUntil_congr E fun i _ hi => hafter i (by omega)
  unfold template frontOf
  rw [header_front E tools history more hnext, renderFrom_split, hbody, Option.or_none,
    Nat.zero_add]
  cases header E tools (history ++ [.null]) with
  | none => rfl
  | some head =>
    cases renderUntil E after (roleOf next) 0 none history with
    | none => rfl
    | some body =>
      cases renderFrom E _ _ _ (next :: more) with
      | none => rfl
      | some back => simp

/-- A query at the end is the last one. -/
theorem lastQueryIndex_query (history : List Value) {message : Value}
    (h : isQuery message = true) : lastQueryIndex (history ++ [message]) = history.length := by
  unfold lastQueryIndex
  rw [List.reverse_append, List.reverse_singleton, List.singleton_append, List.zipIdx_cons,
    List.foldl_cons]
  simp only [scanQuery, h, Bool.and_self, if_true, foldl_scanQuery_done, List.length_append,
    List.length_singleton]
  omega

/-- **In front of a user query** the prompt does not depend on the query. -/
theorem template_query (E : Engine) (tools : Option Value) (history : List Value) {message : Value}
    {content : List Char} (hquery : isQuery message = true)
    (hcontent : contentString message = some content) (enableThinking : Option Value)
    (generation : Bool) : ∃ back, template E tools enableThinking (history ++ [message]) generation =
      (frontOf E tools (fun _ => false) (some (.str "user")) history).map fun front =>
        front ++ "<|im_start|>user\n".toList ++ (content ++ back) := by
  have huser : isRole message "user" = true := by
    rw [isQuery, Bool.and_eq_true] at hquery
    exact hquery.1
  have hrole : roleOf message = some (.str "user") := of_decide_eq_true huser
  have hsystem : isRole message "system" = false := by simp [isRole, hrole]
  have hafter : ∀ i < history.length,
      decide (i > lastQueryIndex (history ++ [message])) = false := fun i hi => by
    rw [lastQueryIndex_query history hquery, decide_eq_false_iff_not]
    omega
  rw [template_split E tools enableThinking history [] generation hsystem hafter]
  rw [hrole, renderFrom, renderMessage, if_pos huser, hcontent, renderFrom]
  refine ⟨"<|im_end|>\n".toList ++ if generation then generationPrompt enableThinking else [], ?_⟩
  cases frontOf E tools (fun _ => false) (some (.str "user")) history with
  | none => rfl
  | some front => simp

/-- **In front of tool messages** the prompt does not depend on them, whatever the history. -/
theorem template_tools (E : Engine) (tools : Option Value) (history : List Value) :
    ∃ front : Option (List Char), ∀ (tool : Value) (more : List Value)
      (enableThinking : Option Value) (generation : Bool),
      (∀ message ∈ tool :: more, isRole message "tool" = true) →
        ∃ back, template E tools enableThinking (history ++ tool :: more) generation =
          front.map fun front => front ++ ((contentString tool).getD [] ++ back) := by
  obtain ⟨found, hfound⟩ := lastQueryIndex_append history
  refine ⟨(frontOf E tools (fun i => found.any (i > ·)) (some (.str "tool")) history).map fun front =>
    front ++ toolOpening history.getLast?.isNone (history.getLast?.bind roleOf),
    fun tool more enableThinking generation htools => ?_⟩
  have hrole : roleOf tool = some (.str "tool") :=
    of_decide_eq_true (htools tool List.mem_cons_self)
  have hsystem : isRole tool "system" = false := by simp [isRole, hrole]
  obtain ⟨back, hback⟩ := renderFrom_tools E (lastQueryIndex (history ++ tool :: more))
    history.length history.getLast? htools
  rw [template_split E tools enableThinking history more generation hsystem
    (hfound (tool :: more) (List.cons_ne_nil _ _) htools), hrole, hback]
  refine ⟨back ++ if generation then generationPrompt enableThinking else [], ?_⟩
  cases frontOf E tools _ (some (.str "tool")) history with
  | none => rfl
  | some front => simp

end ReedCode.SpeculativePrefill
