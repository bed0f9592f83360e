import ReedCode.ChatDelta
import ReedCode.Lib.Runs

/-!
# Assembling a chat completion stream

`stream_completion` of `chat_stream.py`, on the chunks that the client yields.

* `addChoice`, `addChunk` — one turn of the loops.
* `complete` — what follows the loop.
* `streamCompletion` — the whole; an exception is known by its message.

`ChatCompletion.model_validate` is third-party: a parameter that accepts a completion or not, and
keeps its values (`Validation`).  Each chunk comes with the milliseconds since the start; a part
has the field types of the client's models.  The timing that an exception carries is left out.
-/

set_option autoImplicit false

namespace ReedCode.ChatStream

/-- A tool call of a delta, without the fields that are `None`. -/
structure Part where
  index : Int
  id : Option String
  type : Option String
  name : Option String
  arguments : Option String
  deriving DecidableEq, Repr

structure Delta where
  texts : DeltaTexts
  functionCall : Value
  toolCalls : List Part
  deriving DecidableEq, Repr

structure Choice where
  index : Int
  delta : Delta
  finishReason : Option String
  deriving DecidableEq, Repr

structure Chunk where
  id : String
  model : String
  usage : Option Value
  choices : List Choice
  deriving DecidableEq, Repr

/-- The local variables of the loop. -/
structure State where
  texts : FinMap TextKey String
  calls : FinMap Int Assembly.Call
  finish : Option String
  usage : Option Value
  model : Option String
  completionId : Option String
  firstOutput : Option Rat
  chunks : Nat
  deriving DecidableEq

def State.new : State := ⟨.empty, .empty, none, none, none, none, none, 0⟩

/-- The fields that must not come behind the finish reason. -/
def Delta.outputs (delta : Delta) : Bool :=
  ([TextKey.content, .reasoning, .reasoningContent].any fun key => (delta.texts.get key).truthy) ||
    !delta.toolCalls.isEmpty

def addText (delta : Delta) (texts : FinMap TextKey String) (key : TextKey) :
    Except String (FinMap TextKey String) :=
  if (delta.texts.get key).truthy then
    match delta.texts.get key with
    | .str s => .ok (Assembly.addText texts (key, s))
    | _ => .error "Unsupported streamed content"
  else .ok texts

/-- A text that is not empty. -/
def given (text : Option String) : Option String := text.filter (· ≠ "")

def Part.fragment (part : Part) : Assembly.Fragment Int where
  key := part.index
  id := given part.id
  name := part.name.getD ""
  arguments := part.arguments.getD ""

def addPart (calls : FinMap Int Assembly.Call) (part : Part) :
    Except String (FinMap Int Assembly.Call) :=
  if part.type.getD "function" ≠ "function" then .error "Unsupported streamed tool"
  else
    match Assembly.collect calls part.fragment with
    | none => .error "Tool call ID changed during the stream"
    | some calls => .ok calls

def Delta.visible (delta : Delta) : Bool :=
  (TextKey.all.any fun key => (delta.texts.get key).truthy) ||
    delta.toolCalls.any fun part => (given part.name).isSome || (given part.arguments).isSome

def addChoice (elapsed : Rat) (count : Nat) (st : State) (choice : Choice) : Except String State := do
  Except.failIf (choice.index ≠ 0 ∨ count ≠ 1) "Expected one streamed completion"
  Except.failIf (st.finish.isSome ∧ choice.delta.outputs) "Output received after the finish reason"
  let texts ← TextKey.all.foldlM (addText choice.delta) st.texts
  Except.failIf choice.delta.functionCall.truthy "Legacy streamed function calls are unsupported"
  let calls ← choice.delta.toolCalls.foldlM addPart st.calls
  Except.failIf (choice.finishReason.isSome ∧ st.finish.isSome) "Duplicate finish reason"
  return { st with
    texts
    calls
    firstOutput :=
      if choice.delta.visible ∧ st.firstOutput = none then some elapsed else st.firstOutput
    finish := choice.finishReason.or st.finish }

def addChunk (st : State) (arrival : Rat × Chunk) : Except String State := do
  let chunk := arrival.2
  Except.failIf (st.completionId.any (· ≠ chunk.id)) "Completion ID changed during the stream"
  let st := { st with
    chunks := st.chunks + 1
    completionId := some chunk.id
    model := some chunk.model
    usage := chunk.usage.or st.usage }
  chunk.choices.foldlM (addChoice arrival.1 chunk.choices.length) st

/-! ## The completion -/

structure Completion where
  id : Option String
  model : Option String
  finishReason : String
  texts : MessageTexts
  toolCalls : List Assembly.Call
  usage : Option Value
  deriving DecidableEq, Repr

/-- `ChatCompletion.model_validate`: the id of a tool call is a required text. -/
structure Validation where
  accepts : Completion → Bool
  id_given : ∀ {completion}, accepts completion = true →
    ∀ call ∈ completion.toolCalls, call.id ≠ none

/-- Calls that a length limit cut may have no id. -/
def closeCall (finish : String) (call : Assembly.Call) : Assembly.Call :=
  if finish = "length" then { call with id := some (call.id.getD "") } else call

def complete (V : Validation) (st : State) : Except String Completion :=
  match st.finish with
  | none => .error "Stream ended without a finish reason"
  | some finish =>
    match Assembly.inOrder st.calls with
    | none => .error "Missing tool call index"
    | some calls =>
      let completion : Completion :=
        ⟨st.completionId, st.model, finish, messageTexts st.texts, calls.map (closeCall finish),
          st.usage⟩
      if V.accepts completion then .ok completion else .error "ValidationError"

structure Timing where
  firstOutput : Option Rat
  chunks : Nat
  deriving DecidableEq, Repr

def streamCompletion (V : Validation) (arrivals : List (Rat × Chunk)) :
    Except String (Completion × Timing) := do
  let st ← arrivals.foldlM addChunk .new
  let completion ← complete V st
  return (completion, ⟨st.firstOutput, st.chunks⟩)

end ReedCode.ChatStream
