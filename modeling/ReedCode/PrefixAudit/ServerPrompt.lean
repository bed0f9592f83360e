import Mathlib.Data.Rat.Floor
import ReedCode.Lib.Framing
import ReedCode.Lib.HashChain
import ReedCode.Lib.Runs
import ReedCode.PyValue

/-!
# Prompts against the hashes of the server

`dynamo_input_sequence_hashes` and `validate_server_prompt` of `dynamo-prefix/audit.py`.  XXH3 with
the fixed seed is a parameter; `none` is a missing package.

* `blocks`, `packTokens`, `packPair` — the blocks of a prompt, and the bytes that are hashed.
* `dynamoInputSequenceHashes` — their chained hashes.
* `validateServerPrompt` — a rendered prompt against a saved record.
-/

set_option autoImplicit false

namespace ReedCode.PrefixAudit

/-! ## Hashes -/

/-- `struct.pack(f"<{len(block)}I", *block)`. -/
def packTokens (block : List Int) : List UInt8 :=
  block.flatMap fun token => (BigEndian.encode 4 token.toNat).reverse

/-- `struct.pack("<QQ", previous, local)`. -/
def packPair (previous own : UInt64) : List UInt8 :=
  (BigEndian.encode 8 previous.toNat).reverse ++ (BigEndian.encode 8 own.toNat).reverse

/-- The slices of a prompt; the last one may be shorter. -/
def blocks (size : Nat) (tokens : List Int) : List (List Int) :=
  (List.range ((tokens.length + size - 1) / size)).map fun i => (tokens.drop (i * size)).take size

def sequenceHashes (xxh3 : List UInt8 → UInt64) (size : Nat) (tokens : List Int) : List UInt64 :=
  HashChain.chain xxh3 packTokens packPair none (blocks size tokens)

def dynamoInputSequenceHashes (xxh3 : List UInt8 → UInt64) (tokenIds : List Int) (blockSize : Int) :
    Except String (List UInt64) := do
  Except.failIf (blockSize ≤ 0) "block_size must be a positive integer"
  Except.failIf (∃ token ∈ tokenIds, ¬ (0 ≤ token ∧ token ≤ 0xFFFFFFFF))
    "Token IDs must be unsigned 32-bit integers"
  return sequenceHashes xxh3 blockSize.toNat tokenIds

/-! ## Records -/

inductive Status where
  | unverifiable
  | verified
  | mismatch
  deriving DecidableEq, Repr

structure ServerPrompt where
  status : Status := .unverifiable
  inputLengthMatches : Option Bool := none
  hashesMatch : Option Bool := none
  traceBlockSize : Option Int := none
  comparedHashes : Nat := 0
  expectedHashes : Option Nat := none
  firstMismatchBlock : Option Nat := none
  reason : Option String := none
  deriving DecidableEq, Repr

/-- `request_end_record.get("event", request_end_record)`. -/
def eventOf (record : Value) : Value := (record.get? "event").getD record

/-- `event.get("request", event)`. -/
def requestOf (event : Value) : Value := (event.get? "request").getD event

/-- An unsigned 64-bit integer. -/
def asHash : Value → Option Int
  | .int n => if 0 ≤ n ∧ n ≤ 0xFFFFFFFFFFFFFFFF then some n else none
  | _ => none

structure Metadata where
  size : Int
  length : Int
  expected : List Int
  deriving DecidableEq, Repr

/-- What `replay` holds, if it is well formed. -/
def readMetadata (replay : Value) : Option Metadata :=
  match replay.get "trace_block_size", replay.get "input_length",
      replay.get "input_sequence_hashes" with
  | .int size, .int length, .list hashes =>
    if size ≤ 0 ∨ length < 0 then none else (hashes.mapM asHash).map fun e => ⟨size, length, e⟩
  | _, _, _ => none

/-- `next((i for i, (left, right) in enumerate(zip(actual, expected)) if left != right), min(…))`. -/
def firstMismatch (actual expected : List Int) : Nat :=
  ((actual.zip expected).findIdx? fun p => p.1 ≠ p.2).getD (min actual.length expected.length)

/-- The length in the request, if it has one, is that of the prompt. -/
def tokensMatch (request : Value) (tokenIds : List Int) : Bool :=
  (request.get "input_tokens").isNull || (request.get "input_tokens").pyEq (.int tokenIds.length)

/-- The comparison of a prompt with what a record holds. -/
def compare (xxhash : Option (List UInt8 → UInt64)) (tokenIds : List Int) (request : Value)
    (m : Metadata) : Except String ServerPrompt :=
  let result : ServerPrompt :=
    { traceBlockSize := some m.size, expectedHashes := some m.expected.length }
  if (m.expected.length : Int) ≠ (m.length + m.size - 1) / m.size then
    .ok { result with
      reason := some "Hash count does not cover the recorded input, including its partial block" }
  else
    let lengthMatches := decide (m.length = tokenIds.length) && tokensMatch request tokenIds
    match xxhash with
    | none => .ok { result with
        inputLengthMatches := some lengthMatches
        reason := some "Install the pinned xxhash dependency to verify saved server hashes" }
    | some xxh3 => do
      let hashes ← dynamoInputSequenceHashes xxh3 tokenIds m.size
      let actual := hashes.map fun h => (h.toNat : Int)
      let verified := lengthMatches && decide (actual = m.expected)
      return { result with
        status := if verified then .verified else .mismatch
        inputLengthMatches := some lengthMatches
        hashesMatch := some (decide (actual = m.expected))
        comparedHashes := min actual.length m.expected.length
        firstMismatchBlock :=
          if actual ≠ m.expected then some (firstMismatch actual m.expected) else none
        reason := some (if verified then
            "All recorded input hashes match, including the trailing partial block"
          else "Rendered input differs from the server trace") }

/-- `event.get("event_type") in {None, "request_end"}`; lists and objects cannot be looked up. -/
def isRequestEnd (event : Value) : Except String Bool :=
  match event.get "event_type" with
  | .list _ | .dict _ => .error "TypeError"
  | kind => .ok (kind.isNull || kind == .str "request_end")

def unverifiable (reason : String) : ServerPrompt := { reason := some reason }

def validateServerPrompt (xxhash : Option (List UInt8 → UInt64)) (tokenIds : List Int)
    (record : Value) : Except String ServerPrompt :=
  let event := eventOf record
  let request := requestOf event
  if record.isObject = false then .ok (unverifiable "Missing request_end record")
  else if event.isObject = false then .ok (unverifiable "Missing request_end event")
  else do
    let requestEnd ← isRequestEnd event
    if requestEnd = false then return unverifiable "Expected a request_end event"
    else if request.isObject = false ∨ (request.get "replay").isObject = false then
      return unverifiable "Missing input hash metadata"
    else
      match readMetadata (request.get "replay") with
      | none => return unverifiable "Missing or malformed input hash metadata"
      | some m => compare xxhash tokenIds request m

end ReedCode.PrefixAudit
