import ReedCode.Lib.FinMap
import ReedCode.PyValue
import ReedCode.WireCapture.Decode

/-!
# The message parser of the thinking study

`parse_message` of `experiments/dynamo-thinking-20261007/analyze.py`: a fold over decoded events
that collects errors and goes on.

* `Block`, `MessageState` — a content block, and the local variables of the loop.
* `MessageState.step` — one event.
* `readCall` — one tool call at the end.
* `parseMessage` — the whole parser; an exception is known by its class.

`json.loads` and `json.dumps` are parameters, as is `jsonschema`, which may be missing.  Numbers are
exact; a sum with a float that is not finite is left out.
-/

set_option autoImplicit false

namespace ReedCode.ThinkingStudy

open WireCapture (Key)

/-! ## Values -/

abbrev Fields := List (String × Value)

/-- `fields.get(key, default)`. -/
def fieldOr (fields : Fields) (key : String) (default : Value) : Value :=
  (fields.lookup key).getD default

/-- The fields of an object, else the exception that the use of another value raises. -/
def fieldsOf (exception : String) : Value → Except String Fields
  | .dict fields => .ok fields
  | _ => .error exception

/-- A value as the key of a dictionary.  `json.loads` gives one object for every `NaN`. -/
def hashed : Value → Except String Key
  | .ext tag => .ok (.ext tag)
  | v => WireCapture.hashed v

/-- `v or {}`. -/
def orEmpty (v : Value) : Value := if v.truthy then v else .dict []

/-- `a or b`. -/
def pyOr (a b : Value) : Value := if a.truthy then a else b

def intOf : Value → Option Int
  | .bool b => some (if b then 1 else 0)
  | .int n => some n
  | _ => none

def numberOf : Value → Option Rat
  | .float q => some q
  | v => (intOf v).map fun n => n

/-- `a + b`. -/
def pyAdd : Value → Value → Except String Value
  | .str s, .str t => .ok (.str (s ++ t))
  | .list xs, .list ys => .ok (.list (xs ++ ys))
  | a, b =>
    match intOf a, intOf b with
    | some m, some n => .ok (.int (m + n))
    | _, _ =>
      match numberOf a, numberOf b with
      | some p, some q => .ok (.float (p + q))
      | _, _ => .error "TypeError"

/-- One item of what `dict.update` goes through. -/
def updatePair (usage : FinMap Key Value) (item : Value) : Except String (FinMap Key Value) :=
  match item.elements? with
  | some [key, value] => do return usage.insert (← hashed key) value
  | some _ => .error "ValueError"
  | none => .error "TypeError"

/-- `usage.update(v)`. -/
def updateUsage (usage : FinMap Key Value) (v : Value) : Except String (FinMap Key Value) :=
  match v with
  | .dict fields => .ok (fields.foldl (fun u f => u.insert (.str f.1) f.2) usage)
  | v =>
    match v.elements? with
    | some items => items.foldlM updatePair usage
    | none => .error "TypeError"

/-! ## Blocks -/

/-- A block: the fields that it was opened with, and the fields that the loop writes. -/
structure Block where
  content : Fields
  text : Option Value
  thinking : Option Value
  partialJson : String
  closed : Bool
  closedAtNs : Option Int
  deriving DecidableEq

def Block.new (content : Fields) : Block :=
  ⟨content, content.lookup "text", content.lookup "thinking", "", false, none⟩

def Block.type (block : Block) : Value := fieldOr block.content "type" .null

def Block.add (block : Block) (delta : Fields) : Except String Block :=
  let dtype := fieldOr delta "type" .null
  if dtype = .str "text_delta" then do
    let text ← pyAdd (block.text.getD (.str "")) (fieldOr delta "text" (.str ""))
    return { block with text := some text }
  else if dtype = .str "thinking_delta" then do
    let thinking ← pyAdd (block.thinking.getD (.str "")) (fieldOr delta "thinking" (.str ""))
    return { block with thinking := some thinking }
  else if dtype = .str "input_json_delta" then
    match fieldOr delta "partial_json" (.str "") with
    | .str s => .ok { block with partialJson := block.partialJson ++ s }
    | _ => .error "TypeError"
  else .ok block

/-! ## Events -/

structure Event where
  atNs : Int
  data : Value
  deriving DecidableEq

structure MessageState where
  blocks : FinMap Key Block
  errors : List String
  finalUsage : FinMap Key Value
  stopReason : Value
  terminal : Bool
  firstText : Option Int
  starts : Nat
  deriving DecidableEq

namespace MessageState

def new : MessageState := ⟨.empty, [], .empty, .null, false, none, 0⟩

def fail (s : MessageState) (error : String) : MessageState :=
  { s with errors := s.errors ++ [error] }

/-- `first_text`, once a text has come. -/
def sawText (s : MessageState) (text : Value) (atNs : Int) : Option Int :=
  if text.truthy ∧ s.firstText = none then some atNs else s.firstText

def openBlock (s : MessageState) (value : Fields) (atNs : Int) : Except String MessageState := do
  let key ← hashed (fieldOr value "index" .null)
  let s := if s.blocks.contains key then s.fail "duplicate_block_index" else s
  let content ← fieldsOf "TypeError" (fieldOr value "content_block" (.dict []))
  return { s with
    blocks := s.blocks.insert key (Block.new content)
    firstText :=
      if fieldOr content "type" .null = .str "text" then
        s.sawText (fieldOr content "text" .null) atNs
      else s.firstText }

def addDelta (s : MessageState) (value : Fields) (atNs : Int) : Except String MessageState := do
  let key ← hashed (fieldOr value "index" .null)
  match s.blocks.get? key with
  | none => return s.fail "delta_without_open_block"
  | some block =>
    if block.closed then return s.fail "delta_without_open_block"
    else do
      let delta ← fieldsOf "AttributeError" (fieldOr value "delta" (.dict []))
      let block ← block.add delta
      return { s with
        blocks := s.blocks.insert key block
        firstText :=
          if fieldOr delta "type" .null = .str "text_delta" then
            s.sawText (fieldOr delta "text" .null) atNs
          else s.firstText }

def closeBlock (s : MessageState) (value : Fields) (atNs : Int) : Except String MessageState := do
  let key ← hashed (fieldOr value "index" .null)
  match s.blocks.get? key with
  | none => return s.fail "stop_without_open_block"
  | some block =>
    if block.closed then return s.fail "stop_without_open_block"
    else return { s with
      blocks := s.blocks.insert key { block with closed := true, closedAtNs := some atNs } }

def messageDelta (s : MessageState) (value : Fields) : Except String MessageState := do
  let usage ← updateUsage s.finalUsage (orEmpty (fieldOr value "usage" .null))
  let delta ← fieldsOf "AttributeError" (orEmpty (fieldOr value "delta" .null))
  return { s with
    finalUsage := usage
    stopReason := pyOr (fieldOr delta "stop_reason" .null) s.stopReason }

/-- `message_stop`; the loop has left a terminal state alone before it comes here. -/
def messageStop (s : MessageState) : MessageState :=
  let s := if s.terminal then s.fail "duplicate_message_stop" else s
  { s with terminal := true }

def step (dumps : Value → String) (s : MessageState) (event : Event) :
    Except String MessageState :=
  match event.data with
  | .dict value =>
    let kind := fieldOr value "type" .null
    if s.terminal then .ok (s.fail "event_after_message_stop")
    else if kind = .str "error" then
      .ok (s.fail ("server_error:" ++ dumps (fieldOr value "error" .null)))
    else if kind = .str "message_start" then .ok { s with starts := s.starts + 1 }
    else if kind = .str "content_block_start" then s.openBlock value event.atNs
    else if kind = .str "content_block_delta" then s.addDelta value event.atNs
    else if kind = .str "content_block_stop" then s.closeBlock value event.atNs
    else if kind = .str "message_delta" then s.messageDelta value
    else if kind = .str "message_stop" then .ok s.messageStop
    else .ok s
  | _ => .ok (s.fail "non_object_sse_event")

end MessageState

/-! ## The end -/

def knownStopReasons : List String := ["end_turn", "max_tokens", "tool_use", "stop_sequence"]

/-- The errors that are found after the loop. -/
def MessageState.endErrors (s : MessageState) : List String :=
  (if s.starts ≠ 1 then ["message_start_count:" ++ toString s.starts] else []) ++
  (if s.terminal ∧ ¬ ∃ reason ∈ knownStopReasons, s.stopReason = .str reason then
    ["missing_or_unknown_final_stop_reason"] else []) ++
  if s.terminal ∧ ∃ e ∈ s.blocks.entries, e.2.closed = false then
    ["unclosed_block_at_message_stop"] else []

/-- A call of a library; `ValueError` is caught. -/
inductive Outcome (α : Type) where
  | returned (a : α)
  | valueError
  | raised (exception : String)
  deriving DecidableEq

/-- How `jsonschema.validate` ends. -/
inductive Verdict where
  | valid
  | validationError
  | schemaError
  deriving DecidableEq

structure Libraries where
  loads : String → Outcome Value
  dumps : Value → String
  jsonschema : Option (Value → Value → Outcome Verdict)

structure Call where
  id : Value
  name : Value
  closed : Bool
  closedAtNs : Option Int
  arguments : Value
  structurallyValid : Bool
  schemaValid : Option Bool
  deriving DecidableEq

/-- The tools of the request by name. -/
def toolsOf (body : Value) : Except String (FinMap Key Value) := do
  let fields ← fieldsOf "AttributeError" body
  match (fieldOr fields "tools" (.list [])).elements? with
  | none => throw "TypeError"
  | some items =>
    items.foldlM (fun tools t => do
      let t ← fieldsOf "AttributeError" t
      let name ← hashed (fieldOr t "name" .null)
      return tools.insert name (fieldOr t "input_schema" .null)) .empty

variable (lib : Libraries) (tools : FinMap Key Value)

def Block.arguments (block : Block) : Outcome Value :=
  if block.partialJson ≠ "" then lib.loads block.partialJson
  else .returned (fieldOr block.content "input" (.dict []))

/-- `schema_valid` of a call that is structurally valid. -/
def checkSchema (block : Block) (args : Value) : Except String (Option Bool) := do
  let some name := block.content.lookup "name" | throw "KeyError"
  let some schema := tools.get? (← hashed name) | throw "KeyError"
  if schema = .null then return none
  match lib.jsonschema with
  | none => return none
  | some validate =>
    match validate args schema with
    | .returned .valid => return some true
    | .returned .validationError => return some false
    | .returned .schemaError => return none
    | .valueError => return none
    | .raised exception => throw exception

def readCall (block : Block) : Except String Call := do
  let name := fieldOr block.content "name" .null
  let call : Call :=
    ⟨fieldOr block.content "id" .null, name, block.closed, block.closedAtNs, .null, false, none⟩
  match block.arguments lib with
  | .valueError => return call
  | .raised exception => throw exception
  | .returned args =>
    let known ← if block.closed then (do return tools.contains (← hashed name)) else pure false
    if known ∧ args.isObject then do
      let schemaValid ← checkSchema lib tools block args
      return { call with arguments := args, structurallyValid := true, schemaValid := schemaValid }
    else return { call with arguments := args }

def textOf : Value → Except String String
  | .str s => .ok s
  | _ => .error "TypeError"

/-- `''.join(…)` over the blocks of a type. -/
def joinTexts (blocks : List Block) (type : String) (text : Block → Option Value) :
    Except String String := do
  let texts ← (blocks.filter fun b => b.type = .str type).mapM fun b =>
    textOf ((text b).getD (.str ""))
  return String.join texts

structure Message where
  finalText : String
  thinkingTextPresent : Bool
  toolCalls : List Call
  firstFinalTextNs : Option Int
  firstValidCompleteToolNs : Option Int
  stopReason : Value
  finalUsage : FinMap Key Value
  messageStop : Bool
  errors : List String

def Call.isValid (call : Call) : Bool := call.structurallyValid && call.schemaValid = some true

def parseMessage (events : List Event) (body : Value) : Except String Message := do
  let tools ← toolsOf body
  let s ← events.foldlM (MessageState.step lib.dumps) .new
  let errors := s.errors ++ s.endErrors
  let blocks := s.blocks.entries.map Prod.snd
  let calls ← (blocks.filter fun b => b.type = .str "tool_use").mapM (readCall lib tools)
  let finalText ← joinTexts blocks "text" Block.text
  let thinking ← joinTexts blocks "thinking" Block.thinking
  let safeTerminal := s.terminal ∧ s.stopReason = .str "tool_use" ∧ errors = []
  let times := if safeTerminal then (calls.filter Call.isValid).filterMap Call.closedAtNs else []
  return ⟨finalText, thinking ≠ "", calls, s.firstText, times.min?, s.stopReason, s.finalUsage,
    s.terminal, errors⟩

end ReedCode.ThinkingStudy
