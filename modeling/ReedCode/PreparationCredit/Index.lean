import ReedCode.Lib.CommonPrefix
import ReedCode.Lib.FinMap
import ReedCode.Lib.Runs
import ReedCode.PyValue

/-!
# The index of the engine capture

`analyze.py`: the rows of the capture, `index_backend`, `generated` and `foreground_ceiling`.

* `indexBackend` — the maps from request ids to the rows of the engine.
* `generated` — the reported output of a finished row.
* `foregroundCeiling` — the longest aligned prefix that ordinary requests could have cached;
  `none` where that is unknown.

A row has the types the capture writes; `cached_tokens` is what the engine gave.  An exception is
known by its message, or by its type where Python raises it.
-/

set_option autoImplicit false

namespace ReedCode.PreparationCredit

/-! ## Rows -/

abbrev Tokens := List Int

structure Entry where
  requestId : String
  captureId : String
  workerMonotonicNs : Int
  cacheSalt : Option String
  promptIds : Option Tokens
  deriving DecidableEq, Repr

structure Link where
  externalRequestId : Option String
  captureId : Option String
  processedPromptIds : Option Tokens
  deriving DecidableEq, Repr

structure Output where
  requestId : String
  workerMonotonicNs : Int
  deriving DecidableEq, Repr

structure Result where
  requestId : String
  workerMonotonicNs : Int
  terminal : String
  outputIdsStatus : String
  outputs : List (String × Tokens)
  cachedTokens : Value
  deriving DecidableEq, Repr

inductive Event where
  | engineEnter (row : Entry)
  | engineLink (row : Link)
  | engineOutput (row : Output)
  | engineResult (row : Result)
  | other (kind : String)
  deriving DecidableEq, Repr

/-! ## The index -/

structure Index where
  entries : FinMap String Entry
  links : FinMap (Option String) (List Link)
  results : FinMap String Result
  firstOutput : FinMap String Output

def Index.empty : Index := ⟨.empty, .empty, .empty, .empty⟩

def indexEvent (ix : Index) : Event → Except String Index
  | .engineEnter row =>
    if ix.entries.contains row.requestId then
      .error ("Repeated external request ID: " ++ row.requestId)
    else .ok { ix with entries := ix.entries.insert row.requestId row }
  | .engineLink row =>
    let rows := (ix.links.get? row.externalRequestId).getD []
    .ok { ix with links := ix.links.insert row.externalRequestId (rows ++ [row]) }
  | .engineResult row =>
    if ix.results.contains row.requestId then
      .error ("Repeated terminal record: " ++ row.requestId)
    else .ok { ix with results := ix.results.insert row.requestId row }
  | .engineOutput row =>
    if ix.firstOutput.contains row.requestId then .ok ix
    else .ok { ix with firstOutput := ix.firstOutput.insert row.requestId row }
  | .other _ => .ok ix

def indexBackend (events : List Event) : Except String Index := events.foldlM indexEvent .empty

/-! ## Outputs -/

/-- The output ids; `none` where they were not reported. -/
def generated (result : Result) : Except String (Option Tokens) :=
  if result.outputs.any fun output => output.1 ≠ "0" then
    .error "The pilot requires exactly one output choice"
  else if result.outputIdsStatus ≠ "reported" then .ok none
  else .ok (some ((result.outputs.lookup "0").getD []))

/-! ## The foreground ceiling -/

/-- `prefix_length(a, b)`. -/
def prefixLength (a b : Tokens) : Nat := Lists.commonLength a b

def BLOCK : Int := 16

def aligned (count : Int) : Int := count / BLOCK * BLOCK

/-- Token ids where the source adds or measures them. -/
def tokensOf : Option Tokens → Except String Tokens
  | some ids => .ok ids
  | none => .error "TypeError"

section Ceiling

variable (ix : Index) (requestId : String) (current : Entry) (bound : Int)

/-- The loop over the ordinary requests. -/
def ceilingFrom (best : Int) : List String → Except String (Option Int)
  | [] => .ok (some best)
  | other :: rest =>
    if other = requestId then ceilingFrom best rest
    else
      match ix.entries.get? other with
      | none => ceilingFrom best rest
      | some entry =>
        if entry.cacheSalt ≠ current.cacheSalt ∨ bound ≤ entry.workerMonotonicNs then
          ceilingFrom best rest
        else
          match ix.results.get? other with
          | none => .ok none
          | some terminal => do
            match ← generated terminal with
            | none => .ok none
            | some ids =>
              let candidate := (← tokensOf entry.promptIds) ++ ids
              let prompt ← tokensOf current.promptIds
              let common := prefixLength prompt candidate
              if terminal.terminal ≠ "finished" ∧ common = candidate.length ∧
                  candidate.length < prompt.length then .ok none
              else ceilingFrom (max best (aligned common)) rest

end Ceiling

def foregroundCeiling (ix : Index) (requestId : String) (normalIds : List String) :
    Except String (Option Int) :=
  match ix.entries.get? requestId with
  | none => .error "KeyError"
  | some current =>
    match ix.firstOutput.get? requestId with
    | none => .ok none
    | some output => ceilingFrom ix requestId current output.workerMonotonicNs 0 normalIds

end ReedCode.PreparationCredit
