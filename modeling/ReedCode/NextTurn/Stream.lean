import ReedCode.ChatDelta
import ReedCode.Lib.Runs

/-!
# The stream reader of the preparation study

`Stream` of `support.py`: the payloads of a server-sent event stream, added one by one, and the
message that they make.

* `addEvent`, `add` — one payload.
* `result` — what is read at the end.
* `assemble` — all payloads and the result; an exception is known by its message.

`json.loads` is the parameter `loads`; a decoded object has the field types of the Chat API except
where the reader checks them itself.  A field that may be missing and is read with a default of
another effect than `None` is an option of its value (`index`, `type`).
-/

set_option autoImplicit false

namespace ReedCode.NextTurn.Stream

structure Fragment where
  index : Option Value
  type : Option Value
  id : Option String
  name : Option String
  arguments : Option String
  deriving DecidableEq, Repr

structure Choice where
  index : Value
  texts : DeltaTexts
  functionCall : Value
  toolCalls : List Fragment
  finishReason : Option String
  deriving DecidableEq, Repr

structure Event where
  error : Value
  id : Option String
  usage : Value
  completionTokenIds : List Int
  engineData : Value
  choices : List Choice
  deriving DecidableEq, Repr

/-- What `json.loads` makes of a payload. -/
inductive Loaded where
  | invalid
  | notObject
  | object (event : Event)
  deriving DecidableEq, Repr

/-- The attributes of a `Stream`; `message` holds the texts. -/
structure State where
  texts : FinMap TextKey String
  calls : FinMap Int Assembly.Call
  finish : Option String
  usage : Value
  completionId : Option String
  engineData : Value
  outputIds : List Int
  firstGenerated : Option Nat
  firstSemantic : Option Nat
  done : Bool
  deriving DecidableEq

def State.new : State :=
  ⟨.empty, .empty, none, .null, none, .null, [], none, none, false⟩

/-- `first or received`: a clock reading of zero counts as none. -/
def orReceived (first : Option Nat) (received : Nat) : Option Nat :=
  (first.filter (· ≠ 0)).or (some received)

/-- A text that is not empty. -/
def given (text : Option String) : Option String := text.filter (· ≠ "")

def Choice.visible (choice : Choice) : Bool :=
  (TextKey.all.any fun key => (choice.texts.get key).truthy) || !choice.toolCalls.isEmpty

def addText (texts : DeltaTexts) (message : FinMap TextKey String) (key : TextKey) :
    Except String (FinMap TextKey String) :=
  match texts.get key with
  | .null => .ok message
  | .str s => .ok (Assembly.addText message (key, s))
  | _ => .error "unsupported content delta"

/-- An index that is an `int` and not negative; `True` and `False` are integers too. -/
def toolIndex : Value → Option Int
  | .int n => if 0 ≤ n then some n else none
  | .bool b => some (if b then 1 else 0)
  | _ => none

def addFragment (calls : FinMap Int Assembly.Call) (fragment : Fragment) :
    Except String (FinMap Int Assembly.Call) :=
  match fragment.index with
  | none => .error "KeyError: index"
  | some index =>
    match toolIndex index with
    | none => .error "invalid tool index"
    | some key =>
      if fragment.type.getD (.str "function") ≠ .str "function" then .error "unsupported tool type"
      else
        match Assembly.collect calls
            ⟨key, given fragment.id, fragment.name.getD "", fragment.arguments.getD ""⟩ with
        | none => .error "tool ID changed"
        | some calls => .ok calls

def addChoice (received : Nat) (st : State) (choice : Choice) : Except String State := do
  Except.failIf (st.finish.isSome ∧ choice.visible) "output after finish reason"
  let texts ← TextKey.all.foldlM (addText choice.texts) st.texts
  Except.failIf choice.functionCall.truthy "legacy function_call is unsupported"
  let calls ← choice.toolCalls.foldlM addFragment st.calls
  Except.failIf (choice.finishReason.isSome ∧ st.finish.isSome) "duplicate finish reason"
  return { st with
    texts
    calls
    firstSemantic :=
      if choice.visible then orReceived st.firstSemantic received else st.firstSemantic
    finish := choice.finishReason.or st.finish }

/-- What an event changes before its choices are read. -/
def State.opened (st : State) (received : Nat) (event : Event) : State :=
  { st with
    completionId := (given event.id).or st.completionId
    usage := if event.usage.truthy then event.usage else st.usage
    firstGenerated :=
      if event.completionTokenIds ≠ [] then orReceived st.firstGenerated received
      else st.firstGenerated
    outputIds := st.outputIds ++ event.completionTokenIds
    engineData := if event.engineData.truthy then event.engineData else st.engineData }

def addEvent (received : Nat) (st : State) (event : Event) : Except String State := do
  Except.failIf event.error.truthy "server stream error"
  Except.failIf ((given event.id).isSome ∧ st.completionId ≠ none ∧
    st.completionId ≠ given event.id) "completion ID changed"
  let st := st.opened received event
  Except.failIf (1 < event.choices.length ∨ event.choices.any fun choice =>
    !choice.index.pyEq (.int 0)) "expected one completion"
  event.choices.foldlM (addChoice received) st

def doneMarker : String := "[DONE]"

def add (loads : String → Loaded) (st : State) (arrival : Nat × String) : Except String State :=
  if st.done then .error "data after DONE"
  else if arrival.2 = doneMarker then .ok { st with done := true }
  else
    match loads arrival.2 with
    | .invalid => .error "JSONDecodeError"
    | .notObject => .error "AttributeError: get"
    | .object event => addEvent arrival.1 st event

structure Result where
  texts : MessageTexts
  toolCalls : List Assembly.Call
  finishReason : String
  usage : Value
  completionId : Option String
  engineData : Value
  outputIds : List Int
  firstGenerated : Option Nat
  firstSemantic : Option Nat
  deriving DecidableEq, Repr

def result (st : State) : Except String Result :=
  match Assembly.inOrder st.calls with
  | none => .error "missing tool call index"
  | some toolCalls =>
    match st.finish with
    | none => .error "incomplete stream"
    | some finish =>
      if st.done then
        .ok ⟨messageTexts st.texts, toolCalls, finish, st.usage, st.completionId, st.engineData,
          st.outputIds, st.firstGenerated, st.firstSemantic⟩
      else .error "incomplete stream"

/-- The payloads with their receipt times, and the result. -/
def assemble (loads : String → Loaded) (arrivals : List (Nat × String)) : Except String Result := do
  result (← arrivals.foldlM (add loads) .new)

end ReedCode.NextTurn.Stream
