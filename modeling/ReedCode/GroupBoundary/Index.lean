import ReedCode.GroupBoundary.Protocol
import ReedCode.Lib.FinMap
import ReedCode.Lib.Runs

/-!
# The group boundary index

`GroupBoundaryIndex` of `group_boundary.rs` as pure state passing: `WorkerState.apply` (the
events), `GroupBoundaryIndex.apply` (generation, sequence, clear and failure handling),
`register`, `invalidate`, `remove` and `lookup`.

* A hash map is a `FinMap`; a `usize` count or length is a `Nat`; a `u64` hash, generation or
  sequence number is a `UInt64`.
* An operation the source would abort on (`unwrap` of a missing entry, a map index that is
  absent, a division by zero, a count that underflows) ends in `Fault.panic`, and the
  enclosing call in `none`.
* On an error `WorkerState::apply` leaves partly updated group maps behind; its only caller
  then calls `fail`, which empties them, so the model drops them at once.

`receive_cases` says once what a call of `apply` can do to a worker; the invariants of the
later modules are read off it.
-/

set_option autoImplicit false

namespace ReedCode.GroupBoundary

/-- Why an event is not absorbed. -/
inductive Fault where
  | unavailable (reason : Unavailable)
  | panic
  deriving DecidableEq, Repr

structure GroupState (H : Type) where
  ancestry : FinMap (CacheIdentity × UInt64) (Prefix H)
  resident : FinMap (CacheIdentity × UInt64) (Prefix H)
  live : FinMap (CacheIdentity × Prefix H) Nat

structure WorkerState (H : Type) where
  generation : UInt64
  nextSequence : UInt64
  specs : List GroupSpec
  groups : FinMap Nat (GroupState H)
  unavailable : Option Unavailable

structure GroupBoundaryIndex (H : Type) where
  workers : FinMap WorkerWithDpRank (WorkerState H)
  maxAncestryEntries : Nat

variable {H : Type}

/-- `GroupState::default()`. -/
def GroupState.empty : GroupState H := ⟨.empty, .empty, .empty⟩

/-- `WorkerState::fail`. -/
def WorkerState.fail (state : WorkerState H) (reason : Unavailable) : WorkerState H :=
  { state with unavailable := some reason, groups := state.groups.mapVals fun _ => .empty }

/-- An unowned `AllBlocksCleared`. -/
def WorkerState.clear (state : WorkerState H) : WorkerState H :=
  { state with
    groups := state.groups.mapVals fun _ => .empty
    unavailable :=
      if state.unavailable = some .invalidManifest then state.unavailable else none }

def WorkerState.advance (state : WorkerState H) : WorkerState H :=
  { state with nextSequence := state.nextSequence + 1 }

/-- `groups.values().map(|g| g.ancestry.len()).sum()`. -/
def WorkerState.ancestryEntries (state : WorkerState H) : Nat :=
  (state.groups.entries.map fun g => g.2.ancestry.size).sum

def localDevice (medium locality : Option String) : Except Fault Unit :=
  Except.failIf (medium.any (· ≠ "GPU") || locality.any (· ≠ "LOCAL"))
    (.unavailable .unsupportedMetadata)

def checkExtra (keys : Option (List (Option Value))) (len : Nat) : Except Fault Unit :=
  Except.failIf (keys.any fun ks => ks.length ≠ len || ks.any (·.isSome))
    (.unavailable .unsupportedMetadata)

/-- `ok_or`. -/
def orUnavailable {α : Type} (x : Option α) (reason : Unavailable) : Except Fault α :=
  match x with
  | some a => .ok a
  | none => .error (.unavailable reason)

/-- `get_mut(..).unwrap()` and map indexing. -/
def orPanic {α : Type} (x : Option α) : Except Fault α :=
  match x with
  | some a => .ok a
  | none => .error .panic

def parent (group : GroupState H) (identity : CacheIdentity) :
    Option UInt64 → Except Fault (Option (Prefix H))
  | none => .ok none
  | some hash =>
    match group.ancestry.get? (identity, hash) with
    | some p => .ok (some p)
    | none => .error (.unavailable .missingParent)

section Ops

variable [DecidableEq H]

def recordAncestry (group : GroupState H) (identity : CacheIdentity) (hash : UInt64)
    (prefix' : Prefix H) : Except Fault (GroupState H) :=
  if (group.ancestry.get? (identity, hash)).any (· ≠ prefix') then
    .error (.unavailable .conflictingIdentity)
  else .ok { group with ancestry := group.ancestry.insert (identity, hash) prefix' }

/-! ## Removal -/

/-- Drop one resident key and its reference on the live prefix. -/
def removeKey (group : GroupState H) (key : CacheIdentity × UInt64) :
    Except Fault (GroupState H) :=
  match group.resident.get? key with
  | none => .ok group
  | some prefix' =>
    let liveKey := (key.1, prefix')
    match group.live.get? liveKey with
    | none | some 0 => .error .panic
    | some (count + 1) => .ok
      { group with
        resident := group.resident.erase key
        live := if count = 0 then group.live.erase liveKey else group.live.insert liveKey count }

/-- Removal has no namespace: every local identity with this engine key goes. -/
def removeHash (group : GroupState H) (hash : UInt64) : Except Fault (GroupState H) :=
  (group.resident.keys.filter fun key => decide (key.2 = hash)).foldlM removeKey group

def WorkerState.applyRemoved (state : WorkerState H) (e : BlockRemoved) :
    Except Fault (WorkerState H) := do
  localDevice e.medium e.locality
  Except.failIf e.ownership.isSome (.unavailable .unsupportedMetadata)
  let id ← orUnavailable e.groupIdx .invalidManifest
  let group ← orUnavailable (state.groups.get? id) .invalidManifest
  let group ← e.blockHashes.foldlM removeHash group
  return { state with groups := state.groups.insert id group }

/-! ## Storing -/

/-- One block: its ancestry, and its residency with a reference on the live prefix. -/
def storeBlock (identity : CacheIdentity) (group : GroupState H) (block : UInt64 × Prefix H) :
    Except Fault (GroupState H) := do
  let group ← recordAncestry group identity block.1 block.2
  let resident := group.resident.insert (identity, block.1) block.2
  match group.resident.get? (identity, block.1) with
  | some _ => return { group with resident }
  | none =>
    let count := (group.live.get? (identity, block.2)).getD 0
    return { group with resident, live := group.live.insert (identity, block.2) (count + 1) }

/-- The metadata an event must not carry. -/
def checkMetadata (e : BlockStored) : Except Fault Unit := do
  localDevice e.medium e.locality
  Except.failIf (e.isEagle.getD false || (e.loraId.isSome && e.identity.loraName.isNone) ||
    e.ownership.isSome || e.blockMmInfos.isSome) (.unavailable .unsupportedMetadata)

/-- The prefix the stored blocks continue; a skipped span records its end as ancestry. -/
def storedBase (U : BlockHashing H) (group : GroupState H) (e : BlockStored) :
    Except Fault (GroupState H × Option (Prefix H)) :=
  match e.skippedTokenIds with
  | some skipped => do
    Except.failIf skipped.isEmpty (.unavailable .invalidSpan)
    Except.failIf (e.blockSize = 0) .panic
    Except.failIf (skipped.length % e.blockSize ≠ 0) (.unavailable .invalidSpan)
    let parentHash ← orUnavailable e.parentBlockHash .invalidSpan
    checkExtra e.skippedExtraKeys (skipped.length / e.blockSize)
    let ancestor ← parent group e.identity e.skippedParentBlockHash
    let last ← orUnavailable (prefixes U skipped e.blockSize e.identity ancestor).getLast?
      .invalidSpan
    let group ← recordAncestry group e.identity parentHash last
    return (group, some last)
  | none => do
    Except.failIf (e.skippedParentBlockHash.isSome || e.skippedExtraKeys.isSome)
      (.unavailable .invalidSpan)
    let base ← parent group e.identity e.parentBlockHash
    return (group, base)

/-- The blocks of a stored span on its group.  A block count whose product with the block
size overflows `usize` cannot equal a length either, so `checked_mul` needs no case. -/
def storeSpan (U : BlockHashing H) (group : GroupState H) (e : BlockStored) :
    Except Fault (GroupState H) := do
  Except.failIf (e.tokenIds.length ≠ e.blockHashes.length * e.blockSize)
    (.unavailable .invalidSpan)
  checkExtra e.extraKeys e.blockHashes.length
  let spanned ← storedBase U group e
  (e.blockHashes.zip (prefixes U e.tokenIds e.blockSize e.identity spanned.2)).foldlM
    (storeBlock e.identity) spanned.1

def WorkerState.applyStored (U : BlockHashing H) (state : WorkerState H) (e : BlockStored) :
    Except Fault (WorkerState H) := do
  checkMetadata e
  let id ← orUnavailable e.groupIdx .invalidManifest
  let spec ← orUnavailable (state.specs.find? fun g => decide (g.groupIdx = id)) .invalidManifest
  Except.failIf (e.blockSize ≠ spec.blockSize || e.kvCacheSpecKind.any (· ≠ spec.kind))
    (.unavailable .invalidManifest)
  let group ← orPanic (state.groups.get? id)
  let group ← storeSpan U group e
  return { state with groups := state.groups.insert id group }

/-- `WorkerState::apply`; a clear is handled by the caller (`unreachable!()`). -/
def WorkerState.apply (U : BlockHashing H) (state : WorkerState H) :
    GroupEvent → Except Fault (WorkerState H)
  | .blockStored e => state.applyStored U e
  | .blockRemoved e => state.applyRemoved e
  | .allBlocksCleared _ => .error .panic

/-! ## The index -/

/-- `GroupBoundaryIndex::apply` on the worker it names: the state after the call and its
result, or `none` for a panic. -/
def WorkerState.receive (U : BlockHashing H) (maxAncestryEntries : Nat) (state : WorkerState H)
    (generation sequence : UInt64) (event : GroupEvent) :
    Option (WorkerState H × Except Unavailable Unit) :=
  if state.generation ≠ generation then some (state, .error .wrongGeneration)
  else if sequence ≠ state.nextSequence then
    some (state.fail .sequenceGap, .error .sequenceGap)
  else
    let state := state.advance
    match event with
    | .allBlocksCleared ownership =>
      if ownership.isSome then
        some (state.fail .unsupportedMetadata, .error .unsupportedMetadata)
      else some (state.clear, .ok ())
    | event =>
      match state.unavailable with
      | some reason => some (state, .error reason)
      | none =>
        match state.apply U event with
        | .ok state' =>
          if state'.ancestryEntries > maxAncestryEntries then
            some (state.fail .ancestryLimit, .error .ancestryLimit)
          else some (state', .ok ())
        | .error (.unavailable reason) => some (state.fail reason, .error reason)
        | .error .panic => none

namespace GroupBoundaryIndex

def new (maxAncestryEntries : Nat) : GroupBoundaryIndex H := ⟨.empty, maxAncestryEntries⟩

def apply (U : BlockHashing H) (index : GroupBoundaryIndex H) (worker : WorkerWithDpRank)
    (generation sequence : UInt64) (event : GroupEvent) :
    Option (GroupBoundaryIndex H × Except Unavailable Unit) :=
  match index.workers.get? worker with
  | none => some (index, .error .noManifest)
  | some state =>
    (state.receive U index.maxAncestryEntries generation sequence event).map fun r =>
      ({ index with workers := index.workers.insert worker r.1 }, r.2)

def register (index : GroupBoundaryIndex H) (worker : WorkerWithDpRank) (generation : UInt64)
    (specs : List GroupSpec) : GroupBoundaryIndex H :=
  { index with
    workers := index.workers.insert worker
      { generation
        nextSequence := 0
        specs
        groups := .ofList (specs.map fun g => (g.groupIdx, .empty))
        unavailable := if validRoster specs then none else some .invalidManifest } }

def unavailable (index : GroupBoundaryIndex H) (worker : WorkerWithDpRank)
    (generation : UInt64) : Option Unavailable :=
  match index.workers.get? worker with
  | some state =>
    if state.generation = generation then state.unavailable else some .wrongGeneration
  | none => some .noManifest

def remove (index : GroupBoundaryIndex H) (worker : WorkerWithDpRank) : GroupBoundaryIndex H :=
  { index with workers := index.workers.erase worker }

def invalidate (index : GroupBoundaryIndex H) (worker : WorkerWithDpRank) (generation : UInt64)
    (reason : Unavailable) : GroupBoundaryIndex H :=
  match index.workers.get? worker with
  | none => index
  | some state =>
    if state.generation = generation then
      { index with workers := index.workers.insert worker (state.fail reason) }
    else index

/-- The inner loop of `lookup`: the block ends of one group that are reusable. -/
def groupEnds (group : GroupState H) (kind : GroupKind) (identity : CacheIdentity)
    (limit : Nat) : List (Prefix H) → List Nat
  | [] => []
  | p :: ps =>
    if p.endAt ≥ limit then []
    else if group.live.contains (identity, p) then
      p.endAt :: groupEnds group kind identity limit ps
    else if kind = .fullAttention then []
    else groupEnds group kind identity limit ps

/-- The outer loop of `lookup`: intersect the ends of the groups of the roster. -/
def allowedEnds (U : BlockHashing H) (groups : FinMap Nat (GroupState H))
    (tokens : List UInt32) (identity : CacheIdentity) :
    Option (List Nat) → List GroupSpec → Option (Option (List Nat))
  | allowed, [] => some allowed
  | allowed, spec :: specs =>
    match groups.get? spec.groupIdx with
    | none => none
    | some group =>
      let ends := groupEnds group spec.kind identity tokens.length
        (prefixes U tokens spec.blockSize identity none)
      let allowed' := match allowed with
        | some current => current.filter (ends.contains ·)
        | none => ends
      allowedEnds U groups tokens identity (some allowed') specs

/-- `GroupBoundaryIndex::lookup`; `none` is the panic of indexing an absent group. -/
def lookup (U : BlockHashing H) (index : GroupBoundaryIndex H) (worker : WorkerWithDpRank)
    (generation : UInt64) (tokens : List UInt32) (identity : CacheIdentity)
    (options : QueryOptions) : Option ReuseBoundary :=
  if !options.cacheReadsEnabled then some (.available 0)
  else if options.isEagle || options.hasMultimodal then
    some (.unavailable .unsupportedMetadata)
  else
    match index.workers.get? worker with
    | none => some (.unavailable .noManifest)
    | some state =>
      if state.generation ≠ generation then some (.unavailable .wrongGeneration)
      else if !state.specs.isEmpty && !hasMamba state.specs &&
          decide (state.unavailable ≠ some .invalidManifest) then some .denseOnly
      else
        match state.unavailable with
        | some reason => some (.unavailable reason)
        | none =>
          (allowedEnds U state.groups tokens identity none state.specs).map fun allowed =>
            .available ((allowed.bind List.max?).getD 0)

end GroupBoundaryIndex

/-! ## What a call can do to a worker -/

/-- **The outcomes of `receive`.** -/
inductive Received (U : BlockHashing H) (maxEntries : Nat) (state : WorkerState H)
    (generation sequence : UInt64) (event : GroupEvent) :
    WorkerState H → Except Unavailable Unit → Prop
  | foreign (hgen : state.generation ≠ generation) :
      Received U maxEntries state generation sequence event state (.error .wrongGeneration)
  | gap (hgen : state.generation = generation) (hseq : sequence ≠ state.nextSequence) :
      Received U maxEntries state generation sequence event (state.fail .sequenceGap)
        (.error .sequenceGap)
  | ownedClear (hgen : state.generation = generation) (hseq : sequence = state.nextSequence)
      (owner : String) (hev : event = .allBlocksCleared (some owner)) :
      Received U maxEntries state generation sequence event
        (state.advance.fail .unsupportedMetadata) (.error .unsupportedMetadata)
  | cleared (hgen : state.generation = generation) (hseq : sequence = state.nextSequence)
      (hev : event = .allBlocksCleared none) :
      Received U maxEntries state generation sequence event state.advance.clear (.ok ())
  | refused (hgen : state.generation = generation) (hseq : sequence = state.nextSequence)
      (hev : ∀ o, event ≠ .allBlocksCleared o) (reason : Unavailable)
      (hun : state.unavailable = some reason) :
      Received U maxEntries state generation sequence event state.advance (.error reason)
  | failed (hgen : state.generation = generation) (hseq : sequence = state.nextSequence)
      (hev : ∀ o, event ≠ .allBlocksCleared o) (hun : state.unavailable = none)
      (reason : Unavailable) :
      Received U maxEntries state generation sequence event (state.advance.fail reason)
        (.error reason)
  | absorbed (hgen : state.generation = generation) (hseq : sequence = state.nextSequence)
      (hev : ∀ o, event ≠ .allBlocksCleared o) (hun : state.unavailable = none)
      (state' : WorkerState H) (happ : state.advance.apply U event = .ok state')
      (hmax : state'.ancestryEntries ≤ maxEntries) :
      Received U maxEntries state generation sequence event state' (.ok ())

/-- **Every call of `apply` that returns has one of these outcomes.** -/
theorem receive_cases {U : BlockHashing H} {maxEntries : Nat} {state state' : WorkerState H}
    {generation sequence : UInt64} {event : GroupEvent} {result : Except Unavailable Unit}
    (h : state.receive U maxEntries generation sequence event = some (state', result)) :
    Received U maxEntries state generation sequence event state' result := by
  unfold WorkerState.receive at h
  split at h
  · rename_i hgen
    cases h
    exact .foreign hgen
  rename_i hgen
  have hgen' : state.generation = generation := Classical.not_not.1 hgen
  split at h
  · rename_i hseq
    cases h
    exact .gap hgen' hseq
  rename_i hseq
  have hseq' : sequence = state.nextSequence := Classical.not_not.1 hseq
  simp only at h
  split at h
  · -- a clear
    rename_i ownership
    cases ownership with
    | none =>
      simp only [Option.isSome_none, Bool.false_eq_true, if_false, Option.some.injEq,
        Prod.mk.injEq] at h
      obtain ⟨rfl, rfl⟩ := h
      exact .cleared hgen' hseq' rfl
    | some owner =>
      simp only [Option.isSome_some, if_true, Option.some.injEq, Prod.mk.injEq] at h
      obtain ⟨rfl, rfl⟩ := h
      exact .ownedClear hgen' hseq' owner rfl
  · rename_i hev
    have hev' : ∀ o, event ≠ .allBlocksCleared o := fun o ho => hev o ho
    have hun : state.advance.unavailable = state.unavailable := rfl
    split at h
    · rename_i reason hreason
      cases h
      exact .refused hgen' hseq' hev' reason (hun ▸ hreason)
    · rename_i hnone
      rw [hun] at hnone
      split at h
      · rename_i state₁ happ
        split at h
        · cases h
          exact .failed hgen' hseq' hev' hnone _
        · rename_i hmax
          cases h
          exact .absorbed hgen' hseq' hev' hnone _ happ (Nat.le_of_not_gt hmax)
      · cases h
        exact .failed hgen' hseq' hev' hnone _
      · cases h

end Ops

/-! ## Field lemmas -/

section Fields

variable (state : WorkerState H) (reason : Unavailable)

@[simp] theorem fail_generation : (state.fail reason).generation = state.generation := rfl
@[simp] theorem fail_nextSequence : (state.fail reason).nextSequence = state.nextSequence := rfl
@[simp] theorem fail_specs : (state.fail reason).specs = state.specs := rfl
@[simp] theorem fail_unavailable : (state.fail reason).unavailable = some reason := rfl
@[simp] theorem clear_generation : state.clear.generation = state.generation := rfl
@[simp] theorem clear_nextSequence : state.clear.nextSequence = state.nextSequence := rfl
@[simp] theorem clear_specs : state.clear.specs = state.specs := rfl
@[simp] theorem advance_generation : state.advance.generation = state.generation := rfl
@[simp] theorem advance_nextSequence :
    state.advance.nextSequence = state.nextSequence + 1 := rfl
@[simp] theorem advance_specs : state.advance.specs = state.specs := rfl
@[simp] theorem advance_groups : state.advance.groups = state.groups := rfl
@[simp] theorem advance_unavailable : state.advance.unavailable = state.unavailable := rfl

theorem clear_unavailable_eq_none :
    state.clear.unavailable = none ↔ state.unavailable ≠ some .invalidManifest := by
  unfold WorkerState.clear
  simp only
  split
  · rename_i h; simp [h]
  · rename_i h; simp [h]

theorem clear_unavailable_of_invalid (h : state.unavailable = some .invalidManifest) :
    state.clear.unavailable = some .invalidManifest := by
  unfold WorkerState.clear
  simp only [h, if_true]

end Fields

/-! ## The calls on an index -/

/-- The calls a client can make on an index. -/
inductive Call where
  | register (worker : WorkerWithDpRank) (generation : UInt64) (specs : List GroupSpec)
  | apply (worker : WorkerWithDpRank) (generation sequence : UInt64) (event : GroupEvent)
  | invalidate (worker : WorkerWithDpRank) (generation : UInt64) (reason : Unavailable)
  | remove (worker : WorkerWithDpRank)

variable [DecidableEq H]

/-- One call; `none` when it panics. -/
def step (U : BlockHashing H) (index : GroupBoundaryIndex H) :
    Call → Option (GroupBoundaryIndex H)
  | .register worker generation specs => some (index.register worker generation specs)
  | .apply worker generation sequence event =>
    (index.apply U worker generation sequence event).map (·.1)
  | .invalidate worker generation reason => some (index.invalidate worker generation reason)
  | .remove worker => some (index.remove worker)

/-- The worker a call is about. -/
def Call.worker : Call → WorkerWithDpRank
  | .register worker .. | .apply worker .. | .invalidate worker .. | .remove worker => worker

end ReedCode.GroupBoundary
