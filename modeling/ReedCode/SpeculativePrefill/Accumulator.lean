import ReedCode.Lib.FinMap
import ReedCode.Lib.Runs
import ReedCode.Value
import Mathlib.Data.List.Sort

/-!
# The completed tool turn

`accumulator.rs`: response frames are folded into one assistant message with tool calls, or
into nothing.  A delta and a tool chunk are the values they serialise to, which is how
`observe` reads them.

* The JSON object of a tool call is a `Tool`, with the fields that are ever set.
* An early `return` of `observe` keeps what was written before it (`Except`).
* `from_str` and `from_value` of the JSON library and the message type are a parameter
  (`Protocol`).
-/

set_option autoImplicit false

namespace ReedCode.SpeculativePrefill

/-! ## Response frames -/

/-- A tool chunk: its index and `serde_json::to_value(chunk)`. -/
structure ToolChunk where
  index : Nat
  incoming : Value
  deriving DecidableEq

/-- A choice: `delta` is `serde_json::to_value(&choice.delta)`, `toolCalls` its typed tool
chunks, `finishReason` the serialised reason. -/
structure Choice where
  index : Nat
  delta : Value
  toolCalls : Option (List ToolChunk)
  finishReason : Option Value
  deriving DecidableEq

structure Response where
  choices : List Choice
  deriving DecidableEq

/-! ## The accumulator -/

/-- `{"type":..,"function":{"arguments":..}}`, with the id and the name once they are given. -/
structure Tool where
  id : Option Value
  type : Value
  name : Option Value
  arguments : String
  deriving DecidableEq

def Tool.new : Tool := ⟨none, .str "function", none, ""⟩

/-- The tool call as a JSON object. -/
def Tool.toValue (tool : Tool) : Value :=
  .dict ((tool.id.map fun id => ("id", id)).toList ++ [("type", tool.type),
    ("function", .dict (("arguments", .str tool.arguments) ::
      (tool.name.map fun name => ("name", name)).toList))])

structure CompletedToolTurn where
  content : Option String
  reasoning : Option String
  tools : FinMap Nat Tool
  finished : Bool
  failed : Bool

namespace CompletedToolTurn

def default : CompletedToolTurn := ⟨none, none, .empty, false, false⟩

def reject (s : CompletedToolTurn) : CompletedToolTurn := { s with failed := true }

end CompletedToolTurn

/-- The role of a delta is one of an assistant, if there is any. -/
def badRole (delta : Value) : Bool := (delta.given? "role").any (· ≠ .str "assistant")

/-- One turn of the loop over the text fields; `none` is a value that is no string. -/
def pushText (delta : Value) (key : String) (target : Option String) : Option (Option String) :=
  match delta.given? key with
  | none => some target
  | some value => value.asStr?.map fun text => some (target.getD "" ++ text)

/-- The loop over the text fields. -/
def CompletedToolTurn.takeText (s : CompletedToolTurn) (delta : Value) :
    Except CompletedToolTurn CompletedToolTurn :=
  match pushText delta "content" s.content with
  | none => .error s.reject
  | some content =>
    match pushText delta "reasoning_content" s.reasoning with
    | none => .error { s with content }.reject
    | some reasoning => .ok { s with content, reasoning }

/-- A field that may be given again, but not differently. -/
def setOnce (existing given : Option Value) : Option (Option Value) :=
  match given with
  | none => some existing
  | some value => if existing.any (· ≠ value) then none else some (some value)

def Tool.takeId (tool : Tool) (incoming : Value) : Except Tool Tool :=
  match setOnce tool.id (incoming.given? "id") with
  | none => .error tool
  | some id => .ok { tool with id }

def Tool.takeType (tool : Tool) (incoming : Value) : Except Tool Tool :=
  match setOnce (some tool.type) (incoming.given? "type") with
  | none => .error tool
  | some type => .ok { tool with type := type.getD tool.type }

/-- The name and the arguments of `incoming["function"]`. -/
def Tool.takeFunction (tool : Tool) (incoming : Value) : Except Tool Tool :=
  match incoming.given? "function" with
  | none => .ok tool
  | some function =>
    match setOnce tool.name (function.given? "name") with
    | none => .error tool
    | some name =>
      match (function.get? "arguments").bind Value.asStr? with
      | none => .ok { tool with name }
      | some args => .ok { tool with name, arguments := tool.arguments ++ args }

/-- One turn of the loop over the tool chunks; a conflict leaves the tool as far as it got. -/
def Tool.take (tool : Tool) (incoming : Value) : Except Tool Tool := do
  let tool ← tool.takeId incoming
  let tool ← tool.takeType incoming
  tool.takeFunction incoming

/-- The loop over the tool chunks. -/
def CompletedToolTurn.takeChunks (s : CompletedToolTurn) :
    List ToolChunk → Except CompletedToolTurn CompletedToolTurn
  | [] => .ok s
  | chunk :: chunks =>
    match ((s.tools.get? chunk.index).getD .new).take chunk.incoming with
    | .error tool => .error { s with tools := s.tools.insert chunk.index tool }.reject
    | .ok tool => { s with tools := s.tools.insert chunk.index tool }.takeChunks chunks

/-- The finish reason, if any, closes the turn. -/
def CompletedToolTurn.takeReason (s : CompletedToolTurn) (reason : Option Value) :
    CompletedToolTurn :=
  match reason with
  | none => s
  | some reason =>
    let s := { s with finished := true }
    if reason ≠ .str "tool_calls" then s.reject else s

def CompletedToolTurn.observe (s : CompletedToolTurn) (response : Response) : CompletedToolTurn :=
  match response.choices with
  -- a usage-only frame is valid after the terminal choice
  | [] => s
  | choice :: others =>
    if s.failed || s.finished || !others.isEmpty || choice.index ≠ 0 then s.reject
    else if (choice.delta.given? "function_call").isSome ||
        (choice.delta.given? "refusal").isSome || badRole choice.delta then s.reject
    else
      let taken := do
        let s ← s.takeText choice.delta
        s.takeChunks (choice.toolCalls.getD [])
      match taken with
      | .error s => s
      | .ok s => s.takeReason choice.finishReason

/-! ## The end of a turn -/

/-- A tool call of the assembled message. -/
structure ToolCall where
  id : String
  name : String
  arguments : String
  deriving DecidableEq

/-- `serde_json::from_str::<Value>`, `serde_json::from_value` to an assistant message, and the
fields of such a message. -/
structure Protocol (M : Type) where
  fromStr : String → Option Value
  fromValue : Value → Option M
  content : M → Option String
  reasoning : M → Option String
  toolCalls : M → List ToolCall

/-- One turn of the loop of `finish`: the tool at a position, with the ids in front of it. -/
def Tool.complete (fromStr : String → Option Value) (ids : List String) (expected index : Nat)
    (tool : Tool) : Option String := do
  let id ← tool.id.bind Value.asStr?
  let name ← tool.name.bind Value.asStr?
  if index ≠ expected || id.isEmpty || name.isEmpty || ids.contains id ||
      tool.type ≠ .str "function" || !(fromStr tool.arguments).any (·.isObject) then none
  else some id

/-- The loop of `finish`, from a position on. -/
def allComplete (fromStr : String → Option Value) : List String → Nat → List (Nat × Tool) → Bool
  | _, _, [] => true
  | ids, expected, (index, tool) :: rest =>
    match tool.complete fromStr ids expected index with
    | none => false
    | some id => allComplete fromStr (id :: ids) (expected + 1) rest

/-- The message `finish` deserialises. -/
def message (content reasoning : Option String) (tools : List Tool) : Value :=
  .dict [("content", content.elim .null .str), ("reasoning_content", reasoning.elim .null .str),
    ("tool_calls", .list (tools.map (·.toValue)))]

/-- The entries of the `BTreeMap`, by index. -/
def CompletedToolTurn.rows (s : CompletedToolTurn) : List (Nat × Tool) :=
  s.tools.entries.insertionSort fun a b => a.1 ≤ b.1

def CompletedToolTurn.finish {M : Type} (P : Protocol M) (s : CompletedToolTurn) : Option M :=
  if s.failed || !s.finished || s.tools.entries.isEmpty then none
  else if allComplete P.fromStr [] 0 s.rows then
    P.fromValue (message s.content s.reasoning (s.rows.map (·.2)))
  else none

/-! ## A run of the accumulator -/

inductive Call where
  | observe (response : Response)
  | reject
  deriving DecidableEq

def CompletedToolTurn.call (s : CompletedToolTurn) : Call → CompletedToolTurn
  | .observe response => s.observe response
  | .reject => s.reject

/-- The accumulator after some calls. -/
def run (calls : List Call) : CompletedToolTurn := calls.foldl CompletedToolTurn.call .default

end ReedCode.SpeculativePrefill
