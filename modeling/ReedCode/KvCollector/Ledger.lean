import ReedCode.PyValue
import ReedCode.Lib.FinMap
import ReedCode.Lib.Framing

/-!
# The ledger of published blocks

`collect_kv.py`: `PublishedBlocks`, which follows the KV events of one publisher, and the loop of
`collect` that feeds it the frames of the socket.

* `readEvent` — the checks `accept` makes on one event, in the source's order.
* `acceptEvents` — the loop over the events of a batch; what an event has changed stays changed
  when a later one raises.
* `accept` — one batch; `receive` — one list of frames; `collect` — a run of the loop.

An exception is known by the name of its type, all that is recorded of it.  The digest of a
payload and its MessagePack decoding are given by `Library`.
-/

set_option autoImplicit false

namespace ReedCode.KvCollector

abbrev Bytes := List UInt8

/-! ## Events -/

/-- An exception of a batch, and whether `complete_since_clear` was reset before it was raised. -/
structure Raised where
  errorType : String
  incomplete : Bool
  deriving DecidableEq, Repr

/-- An exception that leaves the flag alone. -/
def Raised.plain (errorType : String) : Raised := ⟨errorType, false⟩

/-- `self.complete_since_clear = False` before `raise ValueError(...)`. -/
def Raised.invalid : Raised := ⟨"ValueError", true⟩

def hexDigit (n : Nat) : Char := Nat.digitChar n

/-- `value.hex()`. -/
def hex (bytes : Bytes) : String :=
  String.ofList (bytes.flatMap fun b => [hexDigit (b.toNat / 16), hexDigit (b.toNat % 16)])

def hashKey : Value → Except Raised String
  | .bytes b => .ok ("bytes:" ++ hex b)
  | .int n => if 0 ≤ n then .ok ("int:" ++ toString n.toNat) else .error (.plain "ValueError")
  | _ => .error (.plain "ValueError")

/-- A block of the ledger: the key of its parent and its tokens. -/
structure Record where
  parent : Option String
  tokenIds : Value
  deriving DecidableEq, Repr

/-- `self.history[key] == record`. -/
def Record.same (a b : Record) : Bool := a.parent == b.parent && a.tokenIds.pyEq b.tokenIds

/-- An event that passed its checks. -/
inductive KvEvent where
  | allBlocksCleared
  | blockRemoved (hashes : List String)
  | blockStored (parent : Option String) (hashes : List String) (tokenIds : Value)
  deriving DecidableEq, Repr

/-- `value in (None, 0)`. -/
def noneOrZero (value : Value) : Bool := value.isNull || value.pyEq (.int 0)

/-- Lists, objects and extension objects cannot be looked up in a set. -/
def hashable : Value → Bool
  | .list _ | .dict _ => false
  | .ext tag => ["nan", "inf", "-inf"].contains tag
  | _ => true

/-- `event[key]`. -/
def item (event : Value) (key : String) : Except Raised Value :=
  match event.get? key with
  | some value => .ok value
  | none => .error (.plain "KeyError")

def orTypeError {α : Type} : Option α → Except Raised α
  | some a => .ok a
  | none => .error (.plain "TypeError")

/-- `any(key not in (None, []) for key in (event.get("extra_keys") or []))`. -/
def hasExtraKeys (event : Value) : Except Raised Bool := do
  let keys := event.get "extra_keys"
  let keys ← if keys.truthy then orTypeError keys.elements? else pure []
  return keys.any fun key => !(key.isNull || key == .list [])

/-- `hash_key(parent) if parent is not None else None`. -/
def parentKey : Value → Except Raised (Option String)
  | .null => .ok none
  | parent => (hashKey parent).map some

/-- The checks of a stored event after its hashes were read. -/
def readStored (event : Value) (hashes : List String) : Except Raised KvEvent := do
  Except.failIf ((event.get "block_size").pyEq (.int 16) = false) .invalid
  let tokenIds ← item event "token_ids"
  let length ← orTypeError tokenIds.len?
  Except.failIf (length ≠ 16 * hashes.length) .invalid
  Except.failIf ((event.get "lora_id").isNull = false ∨ (event.get "lora_name").isNull = false)
    .invalid
  let extra ← hasExtraKeys event
  Except.failIf (extra = true) .invalid
  let parent ← item event "parent_block_hash"
  let parent ← parentKey parent
  return .blockStored parent hashes tokenIds

def readEvent (event : Value) : Except Raised KvEvent := do
  Except.failIf (event.isObject = false) (.plain "ValueError")
  let kind := event.get "type"
  if kind = .str "AllBlocksCleared" then return .allBlocksCleared
  Except.failIf (hashable kind = false) (.plain "TypeError")
  Except.failIf (kind ≠ .str "BlockStored" ∧ kind ≠ .str "BlockRemoved") .invalid
  Except.failIf (event.get "medium" ≠ .str "GPU" ∨ noneOrZero (event.get "group_idx") = false)
    .invalid
  let values ← item event "block_hashes"
  let values ← orTypeError values.elements?
  let hashes ← values.mapM hashKey
  if kind = .str "BlockRemoved" then return .blockRemoved hashes
  readStored event hashes

/-! ## The ledger -/

structure PublishedBlocks where
  lastSequence : Option Nat
  lastPayloadHash : Option String
  completeSinceClear : Bool
  blocks : FinMap String Record
  history : FinMap String Record
  issues : List (Nat × String)

def PublishedBlocks.init : PublishedBlocks := ⟨none, none, false, .empty, .empty, []⟩

/-- The ledger in the middle of a batch, with the counts of `accept`. -/
structure Progress where
  ledger : PublishedBlocks
  stored : Nat
  removed : Nat
  cleared : Nat

def Progress.start (ledger : PublishedBlocks) : Progress := ⟨ledger, 0, 0, 0⟩

/-- What is left when an exception is raised. -/
def Progress.raise (p : Progress) (raised : Raised) : String × Progress :=
  (raised.errorType, if raised.incomplete then
    { p with ledger := { p.ledger with completeSinceClear := false } } else p)

def Progress.clear (p : Progress) : Progress :=
  { p with
    ledger := { p.ledger with blocks := .empty, history := .empty, completeSinceClear := true }
    cleared := p.cleared + 1 }

def Progress.remove (p : Progress) (key : String) : Progress :=
  { p with
    ledger := { p.ledger with blocks := p.ledger.blocks.erase key }
    removed := p.removed + if p.ledger.blocks.contains key then 1 else 0 }

def Progress.store (p : Progress) (key : String) (record : Record) : Progress :=
  { p with
    ledger := { p.ledger with
      blocks := p.ledger.blocks.insert key record
      history := p.ledger.history.insert key record }
    stored := p.stored + if p.ledger.blocks.contains key then 0 else 1 }

/-- The loop over the hashes of a stored event, from an index on. -/
def storeBlocks (tokenIds : Value) : Nat → Option String → List String → Progress →
    Except (String × Progress) Progress
  | _, _, [], p => .ok p
  | index, parent, key :: keys, p =>
    match tokenIds.slice? (16 * index) (16 * (index + 1)) with
    -- an object has a length, but no slices
    | none => .error (p.raise (.plain "KeyError"))
    | some tokens =>
      let record : Record := ⟨parent, tokens⟩
      if (p.ledger.history.get? key).any fun seen => !seen.same record then
        .error (p.raise .invalid)
      else storeBlocks tokenIds (index + 1) (some key) keys (p.store key record)

def acceptEvent (p : Progress) (event : Value) : Except (String × Progress) Progress :=
  match readEvent event with
  | .error raised => .error (p.raise raised)
  | .ok .allBlocksCleared => .ok p.clear
  | .ok (.blockRemoved hashes) => .ok (hashes.foldl Progress.remove p)
  | .ok (.blockStored parent hashes tokenIds) => storeBlocks tokenIds 0 parent hashes p

/-- The loop over the events of a batch. -/
def acceptEvents (p : Progress) (events : List Value) : Except (String × Progress) Progress :=
  events.foldlM acceptEvent p

/-- A finite number that is no boolean; integers of a payload have 64 bits. -/
def finiteNumber : Value → Bool
  | .int _ | .float _ => true
  | _ => false

/-- The events of a batch whose other fields are as expected. -/
def batchEvents : Value → Option (List Value)
  | .list [timestamp, .list events] => if finiteNumber timestamp then some events else none
  | .list [timestamp, .list events, rank] =>
    if finiteNumber timestamp && noneOrZero rank then some events else none
  | _ => none

/-- The dictionary that `accept` returns. -/
inductive State where
  | duplicate (completeSinceClear : Bool) (publishedGpuBlocks : Nat)
  | accepted (completeSinceClear : Bool)
      (publishedGpuBlocks newlyPublishedBlocks removedPresentBlocks clearEvents : Nat)
      (issue : Option String)
  deriving DecidableEq, Repr

/-- What a call of `accept` leaves: the ledger, the clear events that were processed, and the
state that is returned or the exception that is raised. -/
structure Accepted where
  ledger : PublishedBlocks
  cleared : Nat
  result : Except String State

/-- The number was not the successor of the last one. -/
def PublishedBlocks.gap (ledger : PublishedBlocks) (sequence : Nat) : Bool :=
  ledger.lastSequence.any fun last => sequence != last + 1

/-- The ledger once a batch that is no duplicate has been noted. -/
def PublishedBlocks.note (ledger : PublishedBlocks) (sequence : Nat) (payloadHash : String) :
    PublishedBlocks :=
  { ledger with
    completeSinceClear := ledger.completeSinceClear && !ledger.gap sequence
    lastSequence := some sequence
    lastPayloadHash := some payloadHash }

def PublishedBlocks.accept (ledger : PublishedBlocks) (sequence : Nat) (payloadHash : String)
    (batch : Value) : Accepted :=
  if ledger.lastSequence = some sequence ∧ ledger.lastPayloadHash = some payloadHash then
    ⟨ledger, 0, .ok (.duplicate ledger.completeSinceClear ledger.blocks.size)⟩
  else
    let issue := if ledger.gap sequence then some "sequence_gap_or_reset" else none
    let noted := ledger.note sequence payloadHash
    match batchEvents batch with
    | none => ⟨noted, 0, .error "ValueError"⟩
    | some events =>
      match acceptEvents (.start noted) events with
      | .error (errorType, p) => ⟨p.ledger, p.cleared, .error errorType⟩
      | .ok p =>
        let issues := issue.elim p.ledger.issues fun issue => p.ledger.issues ++ [(sequence, issue)]
        ⟨{ p.ledger with issues }, p.cleared, .ok (.accepted p.ledger.completeSinceClear
          p.ledger.blocks.size p.stored p.removed p.cleared issue)⟩

/-! ## The loop of `collect` -/

/-- What the loop uses of `hashlib` and `msgspec`: the digest of a payload, and its decoded value
or the type of the exception. -/
structure Library where
  sha256 : Bytes → String
  decode : Bytes → Except String Value

/-- The line written for the frames that were received. -/
structure Line where
  frames : List Bytes
  sequence : Option Nat
  payloadSha256 : Option String
  result : Except String State

/-- The state of the loop; `clears` counts the clear events processed so far. -/
structure Collector where
  ledger : PublishedBlocks
  failures : Nat
  clears : Nat
  lines : List Line

def Collector.init : Collector := ⟨.init, 0, 0, []⟩

/-- The sequence number and the payload of frames with the layout of the publisher. -/
def layout (topic : Bytes) (frames : List Bytes) : Option (Nat × Bytes) :=
  match frames with
  | [subject, number, payload] =>
    if subject = topic ∧ number.length = 8 then some (BigEndian.decode number, payload) else none
  | _ => none

/-- The `except` branch. -/
def Collector.fail (c : Collector) (ledger : PublishedBlocks) (cleared : Nat) (line : Line) :
    Collector :=
  { ledger := { ledger with completeSinceClear := false }
    failures := c.failures + 1
    clears := c.clears + cleared
    lines := c.lines ++ [line] }

/-- One turn of the loop. -/
def receive (L : Library) (topic : Bytes) (c : Collector) (frames : List Bytes) : Collector :=
  match layout topic frames with
  | none => c.fail c.ledger 0 ⟨frames, none, none, .error "ValueError"⟩
  | some (sequence, payload) =>
    let hash := L.sha256 payload
    match L.decode payload with
    | .error errorType => c.fail c.ledger 0 ⟨frames, some sequence, some hash, .error errorType⟩
    | .ok batch =>
      let after := c.ledger.accept sequence hash batch
      let line : Line := ⟨frames, some sequence, some hash, after.result⟩
      match after.result with
      | .error _ => c.fail after.ledger after.cleared line
      | .ok _ => ⟨after.ledger, c.failures, c.clears + after.cleared, c.lines ++ [line]⟩

def collect (L : Library) (topic : Bytes) (received : List (List Bytes)) : Collector :=
  received.foldl (receive L topic) .init

end ReedCode.KvCollector
