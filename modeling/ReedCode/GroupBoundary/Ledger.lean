import ReedCode.GroupBoundary.Index

/-!
# Residency, read off the accepted events

The abstract side of the index: a `Ledger` says, for one group, which token path each
engine hash names (`decode`) and which engine hashes are stored (`stored`).  It is computed
from the history of accepted events alone, with token paths instead of hash chains and
without counts.

* `Ledger.Resident` — some stored engine hash names the path;
* `histories` — the accepted events of each worker since it was registered or last cleared.
-/

set_option autoImplicit false

namespace ReedCode.GroupBoundary

/-- What the events of one group say about its blocks. -/
structure Ledger where
  decode : CacheIdentity → UInt64 → Option (List UInt32)
  stored : CacheIdentity → UInt64 → Bool

namespace Ledger

def empty : Ledger := ⟨fun _ _ => none, fun _ _ => false⟩

/-- Engine hash `hash` names `path` under `identity`. -/
def name (l : Ledger) (identity : CacheIdentity) (hash : UInt64) (path : List UInt32) : Ledger :=
  { l with decode := fun i h => if i = identity ∧ h = hash then some path else l.decode i h }

def mark (l : Ledger) (identity : CacheIdentity) (hash : UInt64) : Ledger :=
  { l with stored := fun i h => if i = identity ∧ h = hash then true else l.stored i h }

/-- The path of an optional parent; no parent is the empty path. -/
def parentPath (l : Ledger) (identity : CacheIdentity) (hash : Option UInt64) : List UInt32 :=
  (hash.bind (l.decode identity)).getD []

/-- Store blocks of `blockSize` tokens one after another behind `path`. -/
def storeBlocks (identity : CacheIdentity) (blockSize : Nat) :
    Ledger → List UInt32 → List UInt32 → List UInt64 → Ledger
  | l, _, _, [] => l
  | l, path, tokens, hash :: hashes =>
    let path' := path ++ tokens.take blockSize
    storeBlocks identity blockSize ((l.name identity hash path').mark identity hash) path'
      (tokens.drop blockSize) hashes

/-- The path a stored span continues. -/
def spanBase (l : Ledger) (e : BlockStored) : List UInt32 :=
  match e.skippedTokenIds with
  | some skipped => l.parentPath e.identity e.skippedParentBlockHash ++ skipped
  | none => l.parentPath e.identity e.parentBlockHash

/-- A skipped span names its end by the parent hash; it stores nothing. -/
def nameSkipped (l : Ledger) (e : BlockStored) : Ledger :=
  match e.skippedTokenIds, e.parentBlockHash with
  | some _, some hash => l.name e.identity hash (l.spanBase e)
  | _, _ => l

def store (l : Ledger) (e : BlockStored) : Ledger :=
  storeBlocks e.identity e.blockSize (l.nameSkipped e) (l.spanBase e) e.tokenIds e.blockHashes

/-- A removal names engine hashes, under whatever identity they were stored. -/
def remove (l : Ledger) (hashes : List UInt64) : Ledger :=
  { l with stored := fun i h => l.stored i h && !hashes.contains h }

/-- One event, as group `group` reads it. -/
def read (group : Nat) (l : Ledger) : GroupEvent → Ledger
  | .blockStored e => if e.groupIdx = some group then l.store e else l
  | .blockRemoved e => if e.groupIdx = some group then l.remove e.blockHashes else l
  | .allBlocksCleared _ => empty

/-- Some engine hash that names the path under this identity is stored. -/
def Resident (l : Ledger) (identity : CacheIdentity) (path : List UInt32) : Prop :=
  ∃ hash, l.stored identity hash = true ∧ l.decode identity hash = some path

end Ledger

/-- The ledger of a group after a history of accepted events. -/
def ledger (group : Nat) (history : List GroupEvent) : Ledger :=
  history.foldl (Ledger.read group) .empty

@[simp] theorem ledger_nil (group : Nat) : ledger group [] = .empty := rfl

@[simp] theorem ledger_append (group : Nat) (history : List GroupEvent) (event : GroupEvent) :
    ledger group (history ++ [event]) = (ledger group history).read group event := by
  simp [ledger]

/-! ## Histories of a run -/

variable {H : Type} [DecidableEq H]

/-- The history of a worker after an event: an accepted clear starts a new one, any other
accepted event extends it, and a refused event leaves it. -/
def historyAfter (history : List GroupEvent) (event : GroupEvent) :
    Except Unavailable Unit → List GroupEvent
  | .ok () =>
    match event with
    | .allBlocksCleared _ => []
    | event => history ++ [event]
  | .error _ => history

/-- Histories after one call; a registration starts a new one. -/
def record (U : BlockHashing H) (index : GroupBoundaryIndex H)
    (history : WorkerWithDpRank → List GroupEvent) :
    Call → WorkerWithDpRank → List GroupEvent
  | .register worker _ _ => fun w => if w = worker then [] else history w
  | .apply worker generation sequence event =>
    match index.apply U worker generation sequence event with
    | some (_, result) => fun w =>
      if w = worker then historyAfter (history w) event result else history w
    | none => history
  | .invalidate .. | .remove _ => history

def historiesFrom (U : BlockHashing H) : GroupBoundaryIndex H →
    (WorkerWithDpRank → List GroupEvent) → List Call → WorkerWithDpRank → List GroupEvent
  | _, history, [] => history
  | index, history, call :: calls =>
    match step U index call with
    | none => history
    | some index' => historiesFrom U index' (record U index history call) calls

/-- The accepted events of every worker since its registration or last accepted clear. -/
def histories (U : BlockHashing H) (maxAncestryEntries : Nat) (calls : List Call) :
    WorkerWithDpRank → List GroupEvent :=
  historiesFrom U (.new maxAncestryEntries) (fun _ => []) calls

end ReedCode.GroupBoundary
