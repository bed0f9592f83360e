import ReedCode.PreparationCredit.Index

/-!
# The analysis of a trial

`analyze_trial` of `analyze.py`, on the documents of a trial directory.

* `checkClient` — the checks on the backend records of one request.
* `requestRow` — the row of an ordinary request; an error that was found before leaves it without
  credit.
* `analyzeTrial` — the report.

Latencies, the blocks of the preparations and the copies of attempts and sessions are left out.
The order in which Python goes through a set is given by `SetOrder`.
-/

set_option autoImplicit false

namespace ReedCode.PreparationCredit

/-! ## Documents -/

/-- What a client and a preparation have in common. -/
structure Sent where
  clientRequestId : String
  doneEvent : Value
  status : Value
  request : Value
  deriving DecidableEq, Repr

structure Client extends Sent where
  sessionId : Value
  error : Value
  finishReason : Value
  responseIssue : Value
  deriving DecidableEq, Repr

structure Prep extends Sent where
  label : String
  deriving DecidableEq, Repr

structure Attempt where
  id : String
  status : Value
  triggerRequestId : Option String
  reason : Value
  deriving DecidableEq, Repr

structure ClientEvent where
  kind : String
  clientRequestId : String
  deriving DecidableEq, Repr

structure Manifest where
  mode : String
  trialId : String
  condition : String
  background : Value
  deriving DecidableEq, Repr

/-- The documents of a trial directory; of a session, the statuses of its capture flushes. -/
structure Trial where
  manifest : Manifest
  reset : Value
  clients : List Client
  preps : List Prep
  attempts : List Attempt
  clientEvents : Option (List ClientEvent)
  sessions : List (List Value)
  deriving DecidableEq, Repr

def Trial.normalIds (trial : Trial) : List String := trial.clients.map fun c => c.clientRequestId

def Trial.prepIds (trial : Trial) : List String := trial.preps.map fun p => p.clientRequestId

/-- The order in which a set is gone through. -/
structure SetOrder where
  order : List String → List String
  perm : ∀ ids, (order ids).Perm ids

def engineCacheSalt (clientSalt : String) : String := "dynamo-cache-salt:" ++ clientSalt

/-! ## Reports -/

structure Row where
  requestId : String
  sessionId : Value
  userTurn : Int
  clientError : Value
  finishReason : Value
  responseIssue : Value
  backendObserved : Bool
  promptTokens : Option Int
  cachedTokens : Value
  foregroundHistoryCeilingTokens : Option Int
  matchingCompletedPreparationTokens : Int
  preparationCreditLowerBoundTokens : Option Int
  cachedTokensAboveForegroundCeiling : Option Int
  deriving DecidableEq, Repr

structure PrepRow where
  requestId : String
  label : String
  clientStatus : Value
  backendObserved : Bool
  backendTerminal : Option String
  promptTokens : Option Int
  cachedTokens : Value
  completedNoncachedPromptTokens : Option Int
  discardedSampledTokens : Option Int
  deriving DecidableEq, Repr

structure Report where
  trialId : String
  engineCacheSalt : String
  condition : String
  background : Value
  attributionValid : Bool
  errors : List String
  normalRequests : List Row
  preparationRequests : List PrepRow
  preparationCreditLowerBoundTokens : Option Int
  requestsWithUnknownCredit : Nat
  deriving DecidableEq, Repr

/-! ## Checks -/

section Analyze

variable (sets : SetOrder) (renderIds : Option (Value → Except String Value)) (ix : Index)
  (trial : Trial)

def tokensValue : Option Tokens → Value
  | some ids => .list (ids.map Value.int)
  | none => .null

def errorWhen (c : Prop) [Decidable c] (error : String) : List String := if c then [error] else []

/-- The loop body over clients and preparations. -/
def checkClient (salt : String) (client : Sent) : Except String (List String) :=
  let rid := client.clientRequestId
  match ix.entries.get? rid with
  | none =>
    .ok (errorWhen (client.doneEvent = .bool true ∨ client.status.pyEq (.str "completed") = true)
      (rid ++ ": completed HTTP request missing at backend"))
  | some entry => do
    let mapping := (ix.links.get? (some rid)).getD []
    let linked := match mapping with
      | [link] => decide (link.processedPromptIds = entry.promptIds ∧
          link.captureId = some entry.captureId)
      | _ => false
    let prompt := client.request.get "prompt"
    let expected ← match prompt, renderIds with
      | .null, some render => render client.request
      | _, _ => .ok prompt
    return errorWhen (entry.cacheSalt ≠ some salt) (rid ++ ": cache salt mismatch") ++
      (errorWhen (linked = false) (rid ++ ": missing or inconsistent engine linkage") ++
        errorWhen (expected = .null ∨ expected.pyEq (tokensValue entry.promptIds) = false)
          (rid ++ ": input token parity unverified or mismatched"))

/-- The errors in front of the rows. -/
def trialErrors : Except String (List String) := do
  let salt := engineCacheSalt trial.manifest.trialId
  let sentIds := trial.normalIds ++ trial.prepIds
  let linkage := match trial.clientEvents with
    | some events =>
      let sent := (events.filter fun e => e.kind = "http_request_link").map (·.clientRequestId)
      errorWhen (¬ (sent ⊆ sentIds ∧ sentIds ⊆ sent)) "Client HTTP linkage/capture set is incomplete"
    | none => ["Client event capture is absent"]
  let attemptIds := trial.attempts.map (·.id)
  let trialBackend := (ix.entries.entries.filter fun e => e.2.cacheSalt = some salt).map (·.1)
  let checks ← (trial.clients.map (·.toSent) ++ trial.preps.map (·.toSent)).mapM
    (checkClient renderIds ix salt)
  return linkage ++
    (errorWhen (∃ p ∈ trial.preps, p.label ∉ attemptIds)
      "Preparation transport lacks a trigger attempt" ++
    (errorWhen (∃ id ∈ trialBackend, id ∉ sentIds)
      "Unaccounted backend traffic in trial cache identity" ++ checks.flatten))

/-! ## Rows of ordinary requests -/

/-- `rid in results and results[rid]["terminal"] == "finished" and generated(results[rid])`. -/
def completed (rid : String) : Except String Bool :=
  match ix.results.get? rid with
  | none => .ok false
  | some result =>
    if result.terminal = "finished" then do
      match ← generated result with
      | none => return false
      | some ids => return !ids.isEmpty
    else .ok false

def completedPreps (prepIds : List String) : Except String (List String) :=
  prepIds.filterM (completed ix)

/-- The loop over the completed preparations. -/
def matchingFrom (salt : String) (entry : Entry) (best : Int) : List String → Except String Int
  | [] => .ok best
  | prepId :: rest =>
    match ix.entries.get? prepId, ix.results.get? prepId with
    | some prep, some result =>
      if prep.cacheSalt = some salt ∧ result.workerMonotonicNs < entry.workerMonotonicNs then do
        let prompt ← tokensOf entry.promptIds
        let prepPrompt ← tokensOf prep.promptIds
        matchingFrom salt entry (max best (aligned (prefixLength prompt prepPrompt))) rest
      else matchingFrom salt entry best rest
    | _, _ => .error "KeyError"

/-- `sum(x.get("role") == "user" for x in request["messages"]) - 1`. -/
def userTurn (request : Value) : Except String Int :=
  match request.get? "messages" with
  | none => .error "KeyError"
  | some messages =>
    match messages.elements? with
    | none => .error "TypeError"
    | some items =>
      if items.all Value.isObject then
        .ok ((items.countP fun x => (x.get "role").pyEq (.str "user") : Nat) - 1)
      else .error "AttributeError"

/-- The credit where everything it needs is known. -/
def creditOf (errors : List String) (ceiling : Option Int) (cached : Value) (promptTokens : Option Int)
    (matching : Int) : Option Int :=
  match ceiling, cached, promptTokens with
  | some ceiling, .int cached, some promptTokens =>
    if errors = [] ∧ 0 ≤ cached ∧ cached ≤ promptTokens then
      some (max 0 (min (aligned cached) matching - ceiling))
    else none
  | _, _, _ => none

def aboveCeiling (ceiling : Option Int) (cached : Value) : Option Int :=
  match ceiling, cached with
  | some ceiling, .int cached => some (max 0 (aligned cached - ceiling))
  | _, _ => none

/-- `client.get("response_issue") or ineligible_reasons.get(rid)`. -/
def responseIssue (client : Client) : Value :=
  if client.responseIssue.truthy then client.responseIssue
  else
    let reasons := trial.attempts.filter fun a =>
      a.status.pyEq (.str "ineligible") ∧ a.triggerRequestId = some client.clientRequestId ∧
        client.clientRequestId ≠ ""
    (reasons.getLast?.map (·.reason)).getD .null

def requestRow (salt : String) (prepared errors : List String) (client : Client) :
    Except String Row := do
  let rid := client.clientRequestId
  let userTurn ← userTurn client.request
  let cached := ((ix.results.get? rid).map (·.cachedTokens)).getD .null
  let (ceiling, matching, promptTokens) ← match ix.entries.get? rid with
    | none => pure (none, (0 : Int), none)
    | some entry => do
      let ceiling ← foregroundCeiling ix rid (sets.order trial.normalIds)
      let matching ← matchingFrom ix salt entry 0 prepared
      let prompt ← tokensOf entry.promptIds
      pure (ceiling, matching, some (prompt.length : Int))
  return {
    requestId := rid
    sessionId := client.sessionId
    userTurn
    clientError := client.error
    finishReason := client.finishReason
    responseIssue := responseIssue trial client
    backendObserved := ix.entries.contains rid
    promptTokens
    cachedTokens := cached
    foregroundHistoryCeilingTokens := ceiling
    matchingCompletedPreparationTokens := matching
    preparationCreditLowerBoundTokens := creditOf errors ceiling cached promptTokens matching
    cachedTokensAboveForegroundCeiling := aboveCeiling ceiling cached }

/-- The loop over the clients: the errors and the rows so far. -/
def addRow (salt : String) (prepared : List String) (found : List String × List Row)
    (client : Client) : Except String (List String × List Row) := do
  let row ← requestRow sets ix trial salt prepared found.1 client
  let above := row.cachedTokensAboveForegroundCeiling.any (· ≠ 0)
  return (found.1 ++ errorWhen (trial.manifest.condition = "off" ∧ above = true)
    (row.requestId ++ ": hint-off cache exceeds foreground-history ceiling"), found.2 ++ [row])

/-! ## Rows of preparations -/

def prepRow (prepared : List String) (prep : Prep) : Except String PrepRow := do
  let rid := prep.clientRequestId
  let result := ix.results.get? rid
  let cached := (result.map (·.cachedTokens)).getD .null
  let promptTokens ← match ix.entries.get? rid with
    | none => pure none
    | some entry => do pure (some ((← tokensOf entry.promptIds).length : Int))
  let noncached ← match cached, promptTokens with
    | .int n, some length => pure (if rid ∈ prepared then some (length - n) else none)
    | .int _, none => if rid ∈ prepared then .error "TypeError" else pure none
    | _, _ => pure none
  let ids ← match result with
    | none => pure none
    | some result => generated result
  return {
    requestId := rid
    label := prep.label
    clientStatus := prep.status
    backendObserved := ix.entries.contains rid
    backendTerminal := result.map (·.terminal)
    promptTokens
    cachedTokens := cached
    completedNoncachedPromptTokens := noncached
    discardedSampledTokens := ids.map fun ids => (ids.length : Int) }

/-! ## The report -/

/-- The errors behind the rows. -/
def flushErrors : List String :=
  errorWhen (∃ status ∈ trial.sessions.flatten, status.pyEq (.str "written") = false)
    "A preparation capture did not flush successfully"

def analyzeTrial : Except String Report := do
  Except.failIf (trial.manifest.mode ≠ "live")
    "Scripted output cannot be interpreted as model results"
  Except.failIf (¬ ∀ key ∈ ["backend_reset_reported", "kv_clear_event_verified", "idle_verified"],
    trial.reset.get key = .bool true) "Missing clean-start evidence"
  Except.failIf (¬ (trial.normalIds ++ trial.prepIds).Nodup) "Client request IDs are not unique"
  let salt := engineCacheSalt trial.manifest.trialId
  let errors ← trialErrors renderIds ix trial
  let prepared ← completedPreps ix (sets.order trial.prepIds)
  let (errors, rows) ← trial.clients.foldlM
    (addRow sets ix trial salt (sets.order prepared)) (errors, [])
  let prepRows ← trial.preps.mapM (prepRow ix prepared)
  let errors := errors ++ flushErrors trial
  let rows := if errors = [] then rows
    else rows.map fun row => { row with preparationCreditLowerBoundTokens := none }
  return {
    trialId := trial.manifest.trialId
    engineCacheSalt := salt
    condition := trial.manifest.condition
    background := trial.manifest.background
    attributionValid := errors.isEmpty
    errors
    normalRequests := rows
    preparationRequests := prepRows
    preparationCreditLowerBoundTokens :=
      if errors = [] then
        some (rows.map fun row => row.preparationCreditLowerBoundTokens.getD 0).sum
      else none
    requestsWithUnknownCredit :=
      rows.countP fun row => row.preparationCreditLowerBoundTokens.isNone }

end Analyze

end ReedCode.PreparationCredit
