import ReedCode.ParityReport.Evidence
import Mathlib.Data.List.Sort

/-!
# The parity report

`report.py`: `build_report` and what it calls.

* `resolveCauses` — the ranges of the misses of a row, with the rest assigned to "other".
* `aggregate` — the totals of some rows.
* `processEntry` — one request of a session: its checks, its warnings, the references among the
  earlier requests, and whether it is usable.
* `buildReport` — the sessions, the groups of their rows, and the rankings of the causes.

The quotients of the totals and the copied evidence fields of a row are left out; nothing
depends on them.
-/

set_option autoImplicit false

namespace ReedCode.ParityReport

/-! ## Causes -/

def CAUSES : List String :=
  ["rendering", "reasoning_round_trip", "tool_call_round_trip", "tool_schema_order",
    "harness_edits", "eviction", "engine_boundary", "other"]

/-- A range that no supplied entry covers. -/
def filler (start finish : Int) (explanation : String) : Value :=
  .dict [("start", .int start), ("end", .int finish), ("cause", .str "other"),
    ("explanation", .str explanation), ("evidence", .list [])]

def rangeError : PyError :=
  .valueError "Cause ranges overlap or exceed their measured interval"

/-- `type(value) is int`. -/
def exactInt : Value → Py Int
  | .int n => .ok n
  | _ => .error rangeError

/-- The label, explanation and evidence of an entry. -/
def checkCause (entry : Value) : Py Unit := do
  let cause ← field entry "cause" .null
  Except.failIf (hashable cause = false) .typeError
  let explanation ← field entry "explanation" .null
  Except.failIf (CAUSES.all (fun c => .str c ≠ cause) ∨ explanation.truthy = false)
    (.valueError "Cause needs a supported label and an explanation")
  let evidence ← field entry "evidence" .null
  Except.failIf (cause ≠ .str "other" ∧ evidence.truthy = false)
    (.valueError "An attributed cause needs explicit evidence")

/-- The loop over the sorted entries, from a position on. -/
def resolveFrom (finish : Int) (explanation : String) : Int → List Value → Py (List Value)
  | cursor, [] => .ok (if cursor < finish then [filler cursor finish explanation] else [])
  | cursor, entry :: entries => do
    let left ← exactInt (← item entry "start")
    let right ← exactInt (← item entry "end")
    Except.failIf (¬ (cursor ≤ left ∧ left < right ∧ right ≤ finish)) rangeError
    checkCause entry
    let rest ← resolveFrom finish explanation right entries
    return (if cursor < left then [filler cursor left explanation] else []) ++ entry :: rest

/-- The start of an entry that has one. -/
def startOf (entry : Value) : Int :=
  match entry.get "start" with
  | .int n => n
  | _ => 0

/-- `sorted(supplied, key=lambda entry: entry["start"])`.  A start that is no integer is refused
here; the source refuses it in the loop, unless the sort fails before. -/
def sortByStart (supplied : List Value) : Py (List Value) := do
  let _ ← supplied.mapM fun entry => do exactInt (← item entry "start")
  return supplied.insertionSort fun a b => startOf a ≤ startOf b

def resolveCauses (start finish : Int) (supplied : Value) (explanation : String) :
    Py (List Value) := do
  let entries ← sortByStart (← iterate supplied)
  resolveFrom finish explanation start entries

/-! ## Rows -/

inductive Group where
  | initialCold
  | withinTurn
  | crossTurn
  | auxiliary
  deriving DecidableEq, Repr

structure Row where
  id : Value
  session : Value
  ordinal : Nat
  conversationId : Value
  userTurn : Int
  group : Group
  usage : Usage
  warnings : List String
  inputTokens : Option Nat
  cachedTokens : Option Nat
  idealTokens : Option Nat
  eligibleIdealTokens : Option Nat
  referenceRequestIds : List Value
  usable : Bool
  compatibleMisses : List Value
  historyRewrites : List Value

/-- A request that later ones may refer to. -/
structure HistoryItem where
  id : Value
  tokens : List Nat
  conversationId : Value
  workerId : Value
  epoch : Value
  ended : Option Nat

/-- The state of the loops: what is known across sessions, and the session so far. -/
structure Walk where
  ids : List Value
  backendUses : List (Value × Value × Value)
  history : List HistoryItem
  rows : List Row
  previousTurn : Option Int

/-! ## One request -/

/-- The fields of a request that are checked first. -/
structure Head where
  id : Value
  turn : Int
  conversationId : Value
  auxiliary : Bool

/-- `request_id in ids`, where equal numbers are one id. -/
def seen (ids : List Value) (id : Value) : Bool := ids.any fun other => other.pyEq id

def userTurn : Value → Option Int
  | .int n => if 1 ≤ n then some n else none
  | _ => none

def readHead (w : Walk) (entry : Value) : Py Head := do
  let id ← item entry "id"
  Except.failIf (hashable id = false) .typeError
  Except.failIf (seen w.ids id = true) (.valueError "Request IDs must be unique")
  let turn ← item entry "user_turn"
  let conversationId ← field entry "conversation_id" .null
  let auxiliary ← field entry "auxiliary" .null
  match userTurn turn with
  | none => .error (.valueError "Every request needs a user_turn and conversation_id")
  | some turn =>
    Except.failIf (conversationId.truthy = false)
      (.valueError "Every request needs a user_turn and conversation_id")
    Except.failIf (auxiliary.truthy = false ∧ w.previousTurn.any (fun p => turn < p) = true)
      (.valueError "Main-session user turns must stay in order")
    return ⟨id, turn, conversationId, auxiliary.truthy⟩

def Head.group (h : Head) (previousTurn : Option Int) : Group :=
  if h.auxiliary then .auxiliary
  else
    match previousTurn with
    | none => .initialCold
    | some p => if p ≠ h.turn then .crossTurn else .withinTurn

/-- The files of a capture; absent bodies are empty. -/
structure Capture where
  metadata : Value
  response : Bytes
  body : Bytes

def readCapture (L : Library) (entry : Value) : Py Capture := do
  let folder ← pathPart (← item entry "capture")
  match L.read [folder, "metadata.json"] with
  | none => .error (.osError [folder, "metadata.json"])
  | some raw =>
    let text ← asValueError (L.decodeUtf8 raw)
    let metadata ← asValueError (L.loads text)
    return ⟨metadata, (L.read [folder, "response.body"]).getD [],
      (L.read [folder, "request.body"]).getD []⟩

def Capture.complete (c : Capture) : Bool := (c.metadata.get "complete").truthy

def Capture.ok (c : Capture) : Bool := (c.metadata.get "response_status").pyEq (.int 200)

def Capture.started (c : Capture) : Option Nat := count (c.metadata.get "started_monotonic_ns")

def Capture.ended (c : Capture) : Option Nat := count (c.metadata.get "ended_monotonic_ns")

def clockWarning (c : Capture) : List String :=
  match c.started, c.ended with
  | some started, some ended => if ended < started then ["Capture clock interval invalid"] else []
  | _, _ => ["Capture clock interval invalid"]

def hashWarning (L : Library) (c : Capture) (name : String) (raw : Bytes) : List String :=
  if raw = [] ∨ c.metadata.get (name ++ "_sha256") ≠ .str (L.sha256 raw) then
    [name ++ " body hash missing or mismatched"] else []

def captureWarnings (L : Library) (c : Capture) : List String :=
  (if !c.complete || !c.ok then ["HTTP capture incomplete or unsuccessful"] else []) ++
    clockWarning c ++ hashWarning L c "request" c.body ++ hashWarning L c "response" c.response

/-- The key under which a backend request may be used once. -/
def backendKey (uses : List (Value × Value × Value)) (backend : Value) :
    Py (Value × Value × Value) := do
  let worker ← item backend "worker_id"
  let epoch ← item backend "epoch"
  let request ← item backend "request_id"
  Except.failIf (hashable worker = false ∨ hashable epoch = false ∨ hashable request = false)
    .typeError
  Except.failIf (uses.any fun use =>
      use.1.pyEq worker && use.2.1.pyEq epoch && use.2.2.pyEq request)
    (.valueError "Backend request mapped more than once")
  return (worker, epoch, request)

/-- The token IDs of a request, the warnings about them, and the backend requests used so far. -/
def loadTokens (L : Library) (uses : List (Value × Value × Value)) (entry : Value) :
    Py (Option (List Nat) × List String × List (Value × Value × Value)) :=
  let backend := entry.get "backend"
  if backend.truthy && (entry.get "link_evidence").truthy then
    match (do
      let tokens ← loadBackend L backend
      let key ← backendKey uses backend
      return (tokens, key) : Py _) with
    | .ok (tokens, key) => .ok (some tokens, [], uses ++ [key])
    | .error error =>
      if error.caught then .ok (none, ["Backend evidence rejected: " ++ L.str error], uses)
      else .error error
  else .ok (none, ["No explicit backend/request mapping with link evidence"], uses)

/-! ## Requests with token IDs -/

/-- The earlier requests of the conversation, worker and epoch that ended before this one. -/
def earlierItems (history : List HistoryItem) (conversationId backend : Value)
    (started : Option Nat) : List HistoryItem :=
  let start : Int := match started with
    | some (n + 1) => n + 1
    -- `count(...) or -1`
    | _ => -1
  history.filter fun item =>
    item.conversationId.pyEq conversationId && item.workerId.pyEq (backend.get "worker_id") &&
      item.epoch.pyEq (backend.get "epoch") && item.ended.any fun ended : Nat => decide ((ended : Int) ≤ start)

def rawIdeal (tokens : List Nat) (earlier : List HistoryItem) : Nat :=
  (earlier.map fun item => lcp tokens item.tokens).foldl max 0

def idealTokens (tokens : List Nat) (earlier : List HistoryItem) : Nat :=
  16 * (rawIdeal tokens earlier / 16)

def eligibleTokens (ideal n : Nat) : Nat := min ideal (16 * ((n - 1) / 16))

def disagreement (name : String) (stated : Option Nat) (measured : Nat) : List String :=
  if stated.any (· ≠ measured) then ["Frontend/backend " ++ name ++ " disagreement"] else []

/-- The cached tokens of the backend's own usage, if it is valid, and the warnings about it. -/
def backendUsage (protocol : Value) (usage : Usage) (stated : Value) (n : Nat) :
    Py (Option Nat × List String) := do
  let evidence ← field stated "evidence" .null
  Except.failIf (evidence.truthy = false)
    (.valueError "Backend usage needs explicit source evidence")
  let input := count (← field stated "input_tokens" .null)
  match count (← field stated "cached_tokens" .null) with
  | some cached =>
    if input = some n ∧ cached ≤ n then
      let breakdown := match usage.uncachedTokens with
        | some uncached =>
          if protocol = .str "anthropic" ∧
              usage.cacheWriteTokens.all (fun write => uncached + cached + write ≠ n) = true then
            ["Anthropic breakdown disagrees with mapped backend usage"]
          else []
        | none => []
      return (some cached, disagreement "input_tokens" usage.inputTokens n ++
        disagreement "cached_tokens" usage.cachedTokens cached ++ breakdown)
    else return (none, ["Mapped backend usage invalid or disagrees with input IDs"])
  | none => return (none, ["Mapped backend usage invalid or disagrees with input IDs"])

def inputWarning (stated : Value) (n : Nat) : List String :=
  if stated = .null then ["No final total input usage to cross-check backend IDs"]
  else if stated.pyEq (.int n) then [] else ["Final input usage disagrees with backend IDs"]

def cachedWarning (cached : Option Nat) (n : Nat) : List String :=
  match cached with
  | none => ["No measured cached-token count"]
  | some cached => if n < cached then ["Cached-token count exceeds input IDs"] else []

/-- The cached tokens of a row, and the warnings about its usage. -/
def checkUsage (protocol entry : Value) (usage : Usage) (n : Nat) :
    Py (Option Nat × List String) := do
  let stated := entry.get "backend_usage"
  if stated.truthy then
    let (measured, warnings) ← backendUsage protocol usage stated n
    let cached := measured.or usage.cachedTokens
    let input ← field stated "input_tokens" .null
    return (cached, warnings ++ inputWarning input n ++ cachedWarning cached n)
  else
    let input := match usage.inputTokens with
      | some n => .int n
      | none => .null
    return (usage.cachedTokens, inputWarning input n ++ cachedWarning usage.cachedTokens n)

/-- Warnings that leave a row usable. -/
def diagnostic : List String :=
  ["Final total input usage unknown", "Final cached-token usage unknown",
    "Final Anthropic cache reads absent; stock omits both zero and unknown"]

/-- Words of the warnings that keep a request out of the history. -/
def brokenWords : List String := ["hash", "disagree", "clock", "invalid", "empty"]

def brokenReference (warnings : List String) : Bool :=
  warnings.any fun warning => brokenWords.any fun word => Text.contains word.toList warning.toList

def completed (usage : Usage) (c : Capture) : Bool :=
  (usage.terminalStatus == some "completed" || usage.terminalStatus == some "incomplete") &&
    c.complete

/-- `causes.get(request_id, {}).get(key, [])`. -/
def causesOf (causes id : Value) (key : String) : Py Value := do
  Except.failIf (causes.isObject = false) .attributeError
  let own := match id with
    | .str name => (causes.get? name).getD (.dict [])
    | _ => .dict []
  field own key (.list [])

def missExplanation (eligible : Option Nat) : String :=
  "No evidence assigns this compatible-prefix miss to a cause" ++
    if eligible.isNone then "; engine boundary unverified" else ""

/-- Where the compatible prefix of a row ends. -/
def Row.finish (row : Row) : Nat := row.eligibleIdealTokens.getD (row.idealTokens.getD 0)

/-- The misses of a row inside its compatible prefix; a row that is not usable has none. -/
def rowMisses (causes : Value) (row : Row) : Py (List Value) :=
  if row.usable then do
    let supplied ← causesOf causes row.id "compatible_misses"
    resolveCauses (min (row.cachedTokens.getD 0) row.finish : Nat) row.finish supplied
      (missExplanation row.eligibleIdealTokens)
  else .ok []

/-- A row whose token IDs are known, and the item it adds to the history. -/
def measure (causes engineRule protocol entry : Value) (c : Capture)
    (history : List HistoryItem) (row : Row) (tokens : List Nat) : Py (Row × Option HistoryItem) := do
  let backend := entry.get "backend"
  let earlier := earlierItems history row.conversationId backend c.started
  let ideal := idealTokens tokens earlier
  let eligible := if engineRule.truthy then some (eligibleTokens ideal tokens.length) else none
  let (cached, usageWarnings) ← checkUsage protocol entry row.usage tokens.length
  let warnings := row.warnings ++
    (if tokens.isEmpty then ["Backend input IDs are empty"] else []) ++ usageWarnings ++
    (if completed row.usage c then [] else ["Request lacks a final model response"])
  let usable := warnings.all diagnostic.contains
  let row := { row with
    warnings, usable
    inputTokens := some tokens.length
    cachedTokens := cached
    idealTokens := some ideal
    eligibleIdealTokens := eligible
    referenceRequestIds := earlier.map HistoryItem.id }
  let misses ← rowMisses causes row
  let added := if completed row.usage c && c.ok && !brokenReference warnings then
    some ⟨row.id, tokens, row.conversationId, backend.get "worker_id", backend.get "epoch",
      c.ended⟩ else none
  return ({ row with compatibleMisses := misses }, added)

/-- `if tokens is not None`. -/
def measureTokens (causes engineRule protocol entry : Value) (c : Capture)
    (history : List HistoryItem) (row : Row) : Option (List Nat) → Py (Row × Option HistoryItem)
  | none => .ok (row, none)
  | some tokens => measure causes engineRule protocol entry c history row tokens

/-! ## History rewrites -/

/-- The reference of a rewrite among the earlier requests. -/
def rewriteReference (history : List HistoryItem) (id conversationId cause : Value) :
    Py HistoryItem := do
  let reference ← field cause "reference_request_id" .null
  match history.find? fun item =>
      item.id.pyEq reference && item.conversationId.pyEq conversationId && !item.id.pyEq id with
  | none => .error (.valueError "History rewrite needs an earlier completed reference request")
  | some item =>
    -- an end that is no integer is refused by `resolve_causes` at the latest
    let finish ← exactInt (← field cause "end" (.int 0))
    Except.failIf ((item.tokens.length : Int) < finish)
      (.valueError "History rewrite exceeds reference input")
    return item

/-- `max(item["end"] for item in entries)`. -/
def lastEnd (entries : List Value) : Py Int := do
  let ends ← entries.mapM fun entry => do exactInt (← item entry "end")
  return ends.foldl max (ends.headD 0)

def checkRewrites (history : List HistoryItem) (id conversationId rewrites : Value) :
    Py (List Value) := do
  let causes ← iterate rewrites
  let references ← causes.mapM fun cause =>
    (rewriteReference history id conversationId cause).map fun item => (item.id, cause)
  let owners := references.map Prod.fst
  let _ ← owners.mapM fun owner => do
    let entries := (references.filter fun r => r.1.pyEq owner).map Prod.snd
    resolveCauses 0 (← lastEnd entries) (.list entries) "unassigned"
  return causes

/-! ## Sessions -/

/-- One request of a session. -/
def processEntry (L : Library) (causes engineRule session : Value) (w : Walk)
    (e : Value × Nat) : Py Walk := do
  let entry := e.1
  let head ← readHead w entry
  let c ← readCapture L entry
  let protocol ← item session "protocol"
  let (usage, usageWarnings) ← responseUsage L c.response protocol
  let sessionId ← item session "id"
  Except.failIf (c.metadata.isObject = false) .attributeError
  let (tokens, loadWarnings, uses) ← loadTokens L w.backendUses entry
  let row : Row :=
    { id := head.id, session := sessionId, ordinal := e.2, conversationId := head.conversationId
      userTurn := head.turn, group := head.group w.previousTurn, usage
      warnings := usageWarnings ++ captureWarnings L c ++ loadWarnings
      inputTokens := none, cachedTokens := usage.cachedTokens, idealTokens := none
      eligibleIdealTokens := none, referenceRequestIds := [], usable := false
      compatibleMisses := [], historyRewrites := [] }
  let (row, added) ← measureTokens causes engineRule protocol entry c w.history row tokens
  let history := w.history ++ added.toList
  let rewrites ← checkRewrites history head.id head.conversationId
    (← causesOf causes head.id "history_rewrites")
  return {
    ids := w.ids ++ [head.id]
    backendUses := uses
    history
    rows := w.rows ++ [{ row with historyRewrites := rewrites }]
    previousTurn := if head.auxiliary then w.previousTurn else some head.turn }

structure Totals where
  requests : Nat
  usableRequests : Nat
  excludedRequestIds : List Value
  inputTokens : Nat
  cachedTokens : Nat
  idealTokens : Nat
  eligibleIdealTokens : Option Nat
  deriving DecidableEq, Repr

/-- `sum(...)` of a field of the usable rows, which none of them may lack. -/
def total (rows : List Row) (get : Row → Option Nat) : Py Nat :=
  match (rows.filter (·.usable)).mapM get with
  | some counts => .ok counts.sum
  | none => .error .typeError

def aggregate (rows : List Row) : Py Totals := do
  let usable := rows.filter (·.usable)
  let input ← total rows (·.inputTokens)
  let cached ← total rows (·.cachedTokens)
  let ideal ← total rows (·.idealTokens)
  return {
    requests := rows.length
    usableRequests := usable.length
    excludedRequestIds := (rows.filter fun row => !row.usable).map (·.id)
    inputTokens := input, cachedTokens := cached, idealTokens := ideal
    eligibleIdealTokens := if usable.isEmpty then none
      else (usable.mapM Row.eligibleIdealTokens).map List.sum }

structure SessionReport where
  id : Value
  protocol : Value
  all : Totals
  main : Totals
  initialCold : Totals
  withinTurn : Totals
  crossTurn : Totals
  auxiliary : Totals
  completedFollowupTurns : List Int

def inGroup (rows : List Row) (group : Group) : List Row := rows.filter fun row => row.group = group

/-- The rows of a session, with what is known across sessions. -/
def walkSession (L : Library) (causes engineRule session : Value) (ids : List Value)
    (uses : List (Value × Value × Value)) : Py Walk := do
  let entries ← iterate (← item session "requests")
  entries.zipIdx.foldlM (processEntry L causes engineRule session) ⟨ids, uses, [], [], none⟩

def reportSession (session : Value) (rows : List Row) : Py SessionReport := do
  let initialCold ← aggregate (inGroup rows .initialCold)
  let withinTurn ← aggregate (inGroup rows .withinTurn)
  let crossTurn ← aggregate (inGroup rows .crossTurn)
  let auxiliary ← aggregate (inGroup rows .auxiliary)
  let id ← item session "id"
  let protocol ← item session "protocol"
  let all ← aggregate rows
  let main ← aggregate (rows.filter fun row => row.group ≠ .auxiliary)
  return {
    id, protocol, all, main, initialCold, withinTurn, crossTurn, auxiliary
    completedFollowupTurns := (((rows.filter fun row => row.usable && 1 < row.userTurn).map
      (·.userTurn)).dedup.insertionSort (· ≤ ·)) }

/-! ## The report -/

/-- What is known after some sessions. -/
structure Progress where
  ids : List Value
  backendUses : List (Value × Value × Value)
  sessions : List SessionReport
  requests : List Row

def processSession (L : Library) (causes engineRule : Value) (p : Progress) (session : Value) :
    Py Progress := do
  let w ← walkSession L causes engineRule session p.ids p.backendUses
  let report ← reportSession session w.rows
  return ⟨w.ids, w.backendUses, p.sessions ++ [report], p.requests ++ w.rows⟩

/-- `totals[cause] += n`. -/
def addTo (cause : String) (n : Int) : List (String × Int) → List (String × Int)
  | [] => [(cause, n)]
  | (c, m) :: rest => if c = cause then (c, m + n) :: rest else (c, m) :: addTo cause n rest

def addEntry (totals : List (String × Int)) (entry : Value) : Py (List (String × Int)) := do
  let cause ← item entry "cause"
  let finish ← exactInt (← item entry "end")
  let start ← exactInt (← item entry "start")
  match cause with
  | .str cause => return addTo cause (finish - start) totals
  | _ => .error .typeError

/-- The largest totals first, equal ones by name. -/
def ranking (entries : List Value) : Py (List (String × Int)) := do
  let totals ← entries.foldlM addEntry []
  return totals.insertionSort fun a b => b.2 < a.2 ∨ (a.2 = b.2 ∧ a.1 ≤ b.1)

structure Report where
  engineBoundary : Value
  sessions : List SessionReport
  requests : List Row
  compatibleMisses : List (String × Int)
  historyRewrites : List (String × Int)

def checkEngineRule (engineRule : Value) : Py Unit := do
  if engineRule.truthy then
    let rule ← field engineRule "rule" .null
    let evidence ← field engineRule "evidence" .null
    Except.failIf (rule ≠ .str "last_token_recomputed" ∨ evidence.truthy = false)
      (.valueError "Engine boundary requires last_token_recomputed and source evidence")

def buildReport (L : Library) (mapping : Value) : Py Report := do
  let blockSize ← field mapping "block_size" .null
  Except.failIf (blockSize.pyEq (.int 16) = false)
    (.valueError "This frozen study uses block_size=16")
  let causes ← field mapping "causes" (.dict [])
  let engineRule ← field mapping "engine_boundary" .null
  checkEngineRule engineRule
  let sessions ← iterate (← item mapping "sessions")
  let p ← sessions.foldlM (processSession L causes engineRule) ⟨[], [], [], []⟩
  let named ← iterate causes
  Except.failIf (named.any (fun name => !hashable name) = true) .typeError
  Except.failIf (named.any (fun name => !seen p.ids name) = true)
    (.valueError "Cause ledger names an unmapped request")
  let misses ← ranking (p.requests.flatMap (·.compatibleMisses))
  let rewrites ← ranking (p.requests.flatMap (·.historyRewrites))
  return ⟨engineRule, p.sessions, p.requests, misses, rewrites⟩

end ReedCode.ParityReport
