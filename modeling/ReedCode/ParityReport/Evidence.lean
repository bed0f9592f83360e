import ReedCode.PyValue
import ReedCode.Lib.Runs
import ReedCode.Lib.Text
import Mathlib.Order.Bounds.Basic

/-!
# The evidence of a parity report

`report.py`: what is read of the captures and of the backend's token IDs.

* `sseEvents`, `responseUsage` — the usage that the final event of a response states.
* `lcp` — the longest common prefix of two token lists (`lcp_spec`).
* `loadBackend` — the token IDs of a request, behind a hash and a JSON pointer.

Files, digests and the parsers of the standard library are given by `Library`; so are the texts of
the built-in exceptions.
-/

set_option autoImplicit false

namespace ReedCode.ParityReport

abbrev Bytes := List UInt8

/-! ## Exceptions and field access -/

inductive PyError where
  | valueError (text : String)
  | keyError (key : String)
  | indexError
  | typeError
  | attributeError
  | osError (path : List String)
  deriving DecidableEq, Repr

/-- `except (OSError, ValueError, KeyError, TypeError, IndexError)`. -/
def PyError.caught : PyError → Bool
  | attributeError => false
  | _ => true

/-- What the report uses from outside: the files under its base folder, SHA-256, UTF-8, `json.loads`
of a text and of bytes, `int` of a text, and `str` of a path and of an exception. -/
structure Library where
  read : List String → Option Bytes
  pathText : List String → String
  sha256 : Bytes → String
  decodeUtf8 : Bytes → Except String String
  loads : String → Except String Value
  loadsBytes : Bytes → Except String Value
  int : String → Except String Int
  text : PyError → String

/-- `str(error)`. -/
def Library.str (L : Library) : PyError → String
  | .valueError text => text
  | error => L.text error

abbrev Py (α : Type) := Except PyError α

/-- An exception of the standard library that is a `ValueError`. -/
def asValueError {α : Type} : Except String α → Py α
  | .ok a => .ok a
  | .error text => .error (.valueError text)

/-- `value.get(key, default)`. -/
def field (value : Value) (key : String) (default : Value) : Py Value :=
  if value.isObject then .ok ((value.get? key).getD default) else .error .attributeError

/-- `value[key]`. -/
def item (value : Value) (key : String) : Py Value :=
  if value.isObject then
    match value.get? key with
    | some v => .ok v
    | none => .error (.keyError key)
  else .error .typeError

/-- `(value.get(key) or {})`. -/
def fieldOrDict (value : Value) (key : String) : Py Value := do
  let v ← field value key .null
  return if v.truthy then v else .dict []

/-- What `for x in value` goes through. -/
def iterate (value : Value) : Py (List Value) :=
  match value.elements? with
  | some items => .ok items
  | none => .error .typeError

def count : Value → Option Nat
  | .int n => if 0 ≤ n then some n.toNat else none
  | _ => none

/-- Lists and objects cannot be looked up in a set. -/
def hashable : Value → Bool
  | .list _ | .dict _ => false
  | _ => true

/-! ## Server-sent events -/

/-- `str.isspace` of one character. -/
def isSpace (c : Char) : Bool :=
  let n := c.toNat
  (9 ≤ n && n ≤ 13) || (28 ≤ n && n ≤ 32) || n == 0x85 || n == 0xA0 || n == 0x1680 ||
    (0x2000 ≤ n && n ≤ 0x200A) || n == 0x2028 || n == 0x2029 || n == 0x202F || n == 0x205F ||
    n == 0x3000

/-- `text.replace(old, new)`. -/
def replace (old new text : List Char) : List Char := List.intercalate new (Text.splitOn old text)

/-- The data of an event: its `data:` lines without the prefix and one space. -/
def dataLines (block : List Char) : List (List Char) :=
  (Text.splitOn ['\n'] block).filterMap fun line =>
    if "data:".toList <+: line then
      match line.drop 5 with
      | ' ' :: rest => some rest
      | rest => some rest
    else none

def sseBlocks (L : Library) : List (List Char) → Except String (List Value)
  | [] => .ok []
  | block :: blocks => do
    let lines := dataLines block
    let data := List.intercalate ['\n'] lines
    if lines.isEmpty || data == "[DONE]".toList then sseBlocks L blocks
    else
      let event ← L.loads (String.ofList data)
      Except.failIf (event.isObject = false) "SSE data must be a JSON object"
      let events ← sseBlocks L blocks
      return event :: events

def sseEvents (L : Library) (raw : Bytes) : Except String (List Value) := do
  let text ← L.decodeUtf8 raw
  let text := replace ['\r'] ['\n'] (replace ['\r', '\n'] ['\n'] text.toList)
  let pieces := Text.splitOn ['\n', '\n'] text
  Except.failIf ((pieces.getLastD []).all isSpace = false) "Unterminated SSE event"
  sseBlocks L pieces.dropLast

/-! ## Usage of a response -/

structure Usage where
  terminalStatus : Option String
  stopReason : Value
  inputTokens : Option Nat
  cachedTokens : Option Nat
  uncachedTokens : Option Nat
  cacheWriteTokens : Option Nat
  outputTokens : Option Nat
  deriving DecidableEq, Repr

def Usage.unknown : Usage := ⟨none, .null, none, none, none, none, none⟩

/-- The position of an item that stands at `i`: the first one equal to it. -/
def indexOf (events : List Value) (i : Nat) : Nat :=
  min i (events.findIdx fun event => event.pyEq (events.getD i .null))

def hasType (type : String) (event : Value) : Bool := event.get "type" == .str type

/-- The terminal statuses of a Responses event, by its type. -/
def terminalTypes : List (String × String) :=
  [("response.completed", "completed"), ("response.incomplete", "incomplete"),
    ("response.failed", "failed")]

def terminalStatus (event : Value) : Option String :=
  match event.get "type" with
  | .str type => terminalTypes.lookup type
  | _ => none

/-- The usage of a response and its warnings. -/
def responseUsage (L : Library) (raw : Bytes) (protocol : Value) : Py (Usage × List String) := do
  match sseEvents L raw with
  | .error text => return (.unknown, ["SSE parse failure: " ++ text])
  | .ok events =>
    if events.any (hasType "error") then
      return ({ Usage.unknown with terminalStatus := some "failed" },
        ["Server returned an error event"])
    if protocol = .str "responses" then
      match events.filter fun event => (terminalStatus event).isSome with
      | [final] =>
        let response ← fieldOrDict final "response"
        let details ← fieldOrDict response "incomplete_details"
        let stopReason ← field details "reason" .null
        let usage ← fieldOrDict response "usage"
        let input ← field usage "input_tokens" .null
        let inputDetails ← fieldOrDict usage "input_tokens_details"
        let cached ← field inputDetails "cached_tokens" .null
        let output ← field usage "output_tokens" .null
        let result : Usage := ⟨terminalStatus final, stopReason, count input, count cached, none,
          none, count output⟩
        return (result, unknowns result)
      | _ => return (.unknown, ["Expected one final Responses event"])
    else if protocol = .str "anthropic" then
      let stop := events.findIdx (hasType "message_stop")
      let delta := events.length - 1 - events.reverse.findIdx (hasType "message_delta")
      if (events.filter (hasType "message_stop")).length ≠ 1 ∨
          events.any (hasType "message_delta") = false ∨ indexOf events stop < indexOf events delta then
        return (.unknown, ["Missing final Anthropic message_delta/message_stop pair"])
      let final := events.getD delta .null
      let usage ← fieldOrDict final "usage"
      let change ← fieldOrDict final "delta"
      let stopReason ← field change "stop_reason" .null
      let uncached := count (← field usage "input_tokens" .null)
      let cached := count (← field usage "cache_read_input_tokens" .null)
      let write := count (← field usage "cache_creation_input_tokens" .null)
      let output := count (← field usage "output_tokens" .null)
      let input := match uncached, cached, write with
        | some a, some b, some c => some (a + b + c)
        | _, _, _ => none
      let result : Usage := ⟨some "completed", stopReason, input, cached, uncached, write, output⟩
      return (result, (if cached.isNone then
        ["Final Anthropic cache reads absent; stock omits both zero and unknown"] else []) ++
        unknowns result)
    else .error (.valueError "protocol must be anthropic or responses")
where
  /-- The warnings about counts that are unknown. -/
  unknowns (usage : Usage) : List String :=
    (if usage.inputTokens.isNone then ["Final total input usage unknown"] else []) ++
      if usage.cachedTokens.isNone then ["Final cached-token usage unknown"] else []

/-! ## Common prefixes -/

def lcp : List Nat → List Nat → Nat
  | a :: left, b :: right => if a = b then lcp left right + 1 else 0
  | _, _ => 0

/-- **`lcp` is the length of the longest common prefix.** -/
theorem lcp_spec : ∀ left right : List Nat,
    IsGreatest {n | n ≤ left.length ∧ n ≤ right.length ∧ left.take n = right.take n}
      (lcp left right)
  | [], right => by
    refine ⟨⟨Nat.le_refl 0, Nat.zero_le _, by simp [lcp]⟩, ?_⟩
    rintro n ⟨hn, -, -⟩
    exact hn
  | a :: left, [] => by
    refine ⟨⟨Nat.zero_le _, Nat.le_refl 0, by simp [lcp]⟩, ?_⟩
    rintro n ⟨-, hn, -⟩
    exact hn
  | a :: left, b :: right => by
    obtain ⟨⟨hl, hr, htake⟩, hmax⟩ := lcp_spec left right
    rw [lcp]
    split
    · rename_i hab
      subst hab
      refine ⟨⟨Nat.succ_le_succ hl, Nat.succ_le_succ hr, by simpa using htake⟩, ?_⟩
      rintro n ⟨hnl, hnr, hn⟩
      cases n with
      | zero => exact Nat.zero_le _
      | succ n =>
        rw [List.take_succ_cons, List.take_succ_cons, List.cons.injEq] at hn
        exact Nat.succ_le_succ (hmax ⟨Nat.le_of_succ_le_succ hnl, Nat.le_of_succ_le_succ hnr, hn.2⟩)
    · rename_i hab
      refine ⟨⟨Nat.zero_le _, Nat.zero_le _, rfl⟩, ?_⟩
      rintro n ⟨-, -, hn⟩
      cases n with
      | zero => exact Nat.le_refl 0
      | succ n =>
        rw [List.take_succ_cons, List.take_succ_cons, List.cons.injEq] at hn
        exact absurd hn.1 hab

/-! ## Token IDs of the backend -/

/-- The operand of `base / value`. -/
def pathPart : Value → Py String
  | .str path => .ok path
  | _ => .error .typeError

def hashedJson (L : Library) (path : String) (expected : Value) : Py Value :=
  match L.read [path] with
  | none => .error (.osError [path])
  | some raw =>
    if .str (L.sha256 raw) = expected then asValueError (L.loadsBytes raw)
    else .error (.valueError ("Evidence hash mismatch: " ++ L.pathText [path]))

/-- `value[i]` of a list, where a negative index counts from the end. -/
def listItem (items : List Value) (i : Int) : Py Value :=
  let i := if i < 0 then i + items.length else i
  match if i < 0 then none else items[i.toNat]? with
  | some value => .ok value
  | none => .error .indexError

/-- One component of a pointer. -/
def pointerStep (L : Library) (value : Value) (component : List Char) : Py Value :=
  let key := String.ofList (replace ['~', '0'] ['~'] (replace ['~', '1'] ['/'] component))
  match value with
  | .list items => do listItem items (← asValueError (L.int key))
  | _ => item value key

def jsonPointer (L : Library) (value pointer : Value) : Py Value :=
  if pointer.truthy = false then .ok value
  else
    match pointer with
    | .str text =>
      match text.toList with
      | '/' :: rest => (Text.splitOn ['/'] rest).foldlM (pointerStep L) value
      | _ => .error (.valueError "JSON pointer must start with /")
    | _ => .error .attributeError

def loadBackend (L : Library) (spec : Value) : Py (List Nat) := do
  let requestId ← field spec "request_id" .null
  let workerId ← field spec "worker_id" .null
  let epoch ← field spec "epoch" .null
  Except.failIf (requestId.truthy = false ∨ workerId.truthy = false ∨ epoch.truthy = false)
    (.valueError "Backend mapping needs request_id, worker_id and epoch")
  let path ← pathPart (← item spec "path")
  let value ← hashedJson L path (← item spec "sha256")
  let tokens ← jsonPointer L value (← field spec "token_ids_pointer" (.str ""))
  match tokens with
  | .list items =>
    match items.mapM count with
    | some ids => return ids
    | none => .error (.valueError "Backend IDs must be an array of nonnegative integers")
  | _ => .error (.valueError "Backend IDs must be an array of nonnegative integers")

end ReedCode.ParityReport
