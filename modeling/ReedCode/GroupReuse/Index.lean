import ReedCode.GroupBoundary.Index

/-!
# The group reuse index

`GroupReuseIndex` of `group_reuse.rs`: the boundary index behind the direct engine-event
ingress, with the batch cursor and the event ordinal of every source.  Every public call holds
the lock from start to end, so a run of the index is a list of calls.

* Decoding is third-party code (`rmp_serde`, `serde_json::from_value`) and a parameter
  (`Decoding`); the timestamp of a batch is not read.
* `register`, `applyBatch`, `invalidate`, `retire`, `remove`, `removeWorker` — the calls;
* `correct` — what the scheduler reads, through `applyDeviceBoundary`.
-/

set_option autoImplicit false

namespace ReedCode.GroupReuse

open GroupBoundary (WorkerWithDpRank GroupSpec GroupEvent GroupReuseQuery GroupBoundaryIndex
  BlockHashing ReuseBoundary Unavailable)

structure GroupReuseRegistration where
  version : Nat
  engineIncarnation : String
  hashBlockSize : Nat
  sparseAncestry : String
  groups : List GroupSpec
  deriving DecidableEq

/-- `GroupReuseRegistration::validate`; `parseUuid` stands for `Uuid::parse_str(..).is_ok()`. -/
def GroupReuseRegistration.validate (parseUuid : String → Bool)
    (registration : GroupReuseRegistration) (blockSize dpSize : Nat) : Except String Unit := do
  Except.failIf (registration.version ≠ 1 || registration.sparseAncestry ≠ "vllm_44488_v1")
    "unsupported group_reuse protocol"
  Except.failIf (!parseUuid registration.engineIncarnation)
    "group_reuse engine_incarnation must be a UUID"
  Except.failIf (dpSize ≠ 1 || blockSize = 0 || registration.hashBlockSize ≠ blockSize)
    "group_reuse v1 requires one DP rank and equal hash/router block sizes"
  Except.failIf (registration.groups.isEmpty ||
      registration.groups.any (fun g => g.blockSize ≠ blockSize || g.slidingWindow.isSome) ||
      !decide (registration.groups.map (·.groupIdx)).Nodup)
    "group_reuse v1 requires a complete, unique, uniform-size group roster"

/-- A validated roster is one the boundary index accepts. -/
theorem validRoster_of_validate {parseUuid : String → Bool}
    {registration : GroupReuseRegistration} {blockSize dpSize : Nat}
    (h : registration.validate parseUuid blockSize dpSize = .ok ()) :
    GroupBoundary.validRoster registration.groups = true := by
  simp only [GroupReuseRegistration.validate, Except.bind_eq_ok_iff, Except.failIf_eq_ok] at h
  obtain ⟨-, -, -, -, -, hsize, hgroups⟩ := h
  simp only [Bool.or_eq_true, decide_eq_true_eq, not_or] at hsize
  simp only [Bool.or_eq_true, List.any_eq_true, Bool.not_eq_true', decide_eq_false_iff_not,
    not_or, not_exists, not_and, Classical.not_not, decide_eq_true_eq] at hgroups
  obtain ⟨⟨hne, hall⟩, hnodup⟩ := hgroups
  refine GroupBoundary.validRoster_iff.2 ⟨by simpa using hne, fun g hg => ?_, hnodup⟩
  obtain ⟨hbs, hsw⟩ := hall g hg
  exact ⟨by omega, by simpa using hsw⟩

structure RoutingPartitionId where
  modelName : String
  routingGroup : String
  deriving DecidableEq

structure Source where
  key : RoutingPartitionId
  epoch : UInt64
  nextBatch : UInt64
  nextEvent : UInt64

structure State (H : Type) where
  index : GroupBoundaryIndex H
  sources : FinMap WorkerWithDpRank Source
  nextEpoch : UInt64

/-- The third-party decoders: the events and rank of a payload, and one named event. -/
structure Decoding where
  fromSlice : List UInt8 → Option (List Value × Option Int)
  fromValue : Value → Option GroupEvent

def saturatingSucc (cursor : UInt64) : UInt64 :=
  if cursor + 1 = 0 then cursor else cursor + 1

namespace State

variable {H : Type}

/-- `GroupReuseIndex::default()`. -/
def default : State H := ⟨.new 1000000, .empty, 0⟩

/-- Registration starts a new epoch; `none` when the epochs are exhausted. -/
def register (state : State H) (worker : WorkerWithDpRank) (key : RoutingPartitionId)
    (registration : GroupReuseRegistration) : Option (State H) :=
  if state.nextEpoch + 1 = 0 then none
  else
    let epoch := state.nextEpoch + 1
    some
      { index := state.index.register worker epoch registration.groups
        sources := state.sources.insert worker ⟨key, epoch, 0, 0⟩
        nextEpoch := epoch }

/-- The source stays as a marker of zero credit. -/
def retire (state : State H) (worker : WorkerWithDpRank) : State H :=
  { state with index := state.index.remove worker }

def remove (state : State H) (worker : WorkerWithDpRank) : State H :=
  { state with
    sources := state.sources.erase worker
    index := state.index.remove worker }

def removeWorker (state : State H) (workerId : UInt64) : State H :=
  (state.sources.keys.filter fun w => decide (w.workerId = workerId)).foldl remove state

/-- `index.invalidate(..)` under the lock. -/
def invalidateIndex (state : State H) (worker : WorkerWithDpRank) (epoch : UInt64)
    (reason : Unavailable) : State H :=
  { state with index := state.index.invalidate worker epoch reason }

def invalidate (state : State H) (worker : WorkerWithDpRank) (epoch : UInt64) : State H :=
  state.invalidateIndex worker epoch .sequenceGap

/-- Legacy positional layouts and sliding-window events are not supported. -/
def unsupported (raw : Value) : Bool :=
  !raw.isObject || (raw.get? "kv_cache_spec_sliding_window").any fun v => !v.isNull

/-- The event of a raw value, unless it is unsupported. -/
def namedEvent (D : Decoding) (raw : Value) : Option GroupEvent :=
  if unsupported raw then none else D.fromValue raw

def setSource (state : State H) (worker : WorkerWithDpRank) (source : Source) : State H :=
  { state with sources := state.sources.insert worker source }

section Batches

variable [DecidableEq H] (D : Decoding) (U : BlockHashing H)

/-- One turn of the loop over the events of a batch. -/
def applyEvent (state : State H) (worker : WorkerWithDpRank) (epoch : UInt64) (raw : Value) :
    Option (State H) :=
  match namedEvent D raw with
  | none => some (state.invalidateIndex worker epoch .unsupportedMetadata)
  | some event =>
    match state.sources.get? worker with
    | none => none
    | some source =>
      let state := state.setSource worker { source with nextEvent := source.nextEvent + 1 }
      (state.index.apply U worker epoch source.nextEvent event).map fun r =>
        { state with index := r.1 }

def applyEvents (worker : WorkerWithDpRank) (epoch : UInt64) :
    State H → List Value → Option (State H)
  | state, [] => some state
  | state, raw :: raws =>
    match state.applyEvent D U worker epoch raw with
    | none => none
    | some state' => applyEvents worker epoch state' raws

/-- A batch that is not ignored: a gap poisons the index, the cursor advances past the batch. -/
def receiveCursor (state : State H) (worker : WorkerWithDpRank) (epoch cursor : UInt64)
    (source : Source) : State H :=
  let state := if cursor ≠ source.nextBatch then
    state.invalidateIndex worker epoch .sequenceGap else state
  state.setSource worker { source with nextBatch := saturatingSucc cursor }

/-- A rank that is negative or not the worker's. -/
def wrongRank (worker : WorkerWithDpRank) (rank : Option Int) : Bool :=
  rank.any fun r => decide (r < 0 ∨ r.toNat ≠ worker.dpRank)

def applyBatch (state : State H) (worker : WorkerWithDpRank) (epoch cursor : UInt64)
    (payload : List UInt8) : Option (State H) :=
  match state.sources.get? worker with
  | none => some state
  | some source =>
    if source.epoch ≠ epoch then some state
    else if cursor < source.nextBatch then some state
    else
      let state := state.receiveCursor worker epoch cursor source
      match D.fromSlice payload with
      | none => some (state.invalidateIndex worker epoch .unsupportedMetadata)
      | some (events, rank) =>
        if wrongRank worker rank then
          some (state.invalidateIndex worker epoch .unsupportedMetadata)
        else applyEvents D U worker epoch state events

end Batches

end State

/-! ## Correction -/

/-- The overlap credits that the default scorer consumes, for each worker. -/
structure OverlapSignals where
  device : FinMap WorkerWithDpRank Nat
  hostPinned : FinMap WorkerWithDpRank Nat
  disk : FinMap WorkerWithDpRank Nat
  effectiveOverlapBlocks : FinMap WorkerWithDpRank Rat
  effectiveCachedTokens : FinMap WorkerWithDpRank Nat

/-- `OverlapSignals::default()`. -/
def OverlapSignals.default : OverlapSignals := ⟨.empty, .empty, .empty, .empty, .empty⟩

/-- The device credit of a worker; an absent entry is none. -/
def OverlapSignals.deviceCredit (signals : OverlapSignals) (worker : WorkerWithDpRank) : Nat :=
  (signals.device.get? worker).getD 0

/-- `apply_device_boundary`; `none` for the assertion on the block size. -/
def applyDeviceBoundary (signals : OverlapSignals) (worker : WorkerWithDpRank)
    (routerBlockSize : Nat) (boundary : ReuseBoundary) : Option OverlapSignals :=
  let limit (tokens : Nat) : Option OverlapSignals :=
    if routerBlockSize = 0 then none
    else
      let blocks := min (signals.deviceCredit worker) (tokens / routerBlockSize)
      some
        { device := signals.device.insert worker blocks
          hostPinned := signals.hostPinned.erase worker
          disk := signals.disk.erase worker
          effectiveOverlapBlocks := signals.effectiveOverlapBlocks.insert worker blocks
          effectiveCachedTokens :=
            signals.effectiveCachedTokens.insert worker (blocks * routerBlockSize) }
  match boundary with
  | .denseOnly => some signals
  | .available tokens => limit tokens
  | .unavailable _ => limit 0

section Correct

variable {H : Type} [DecidableEq H] (U : BlockHashing H)

/-- The boundary `correct` applies to one source. -/
def sourceBoundary (state : State H) (query : Option GroupReuseQuery)
    (worker : WorkerWithDpRank) (source : Source) : Option ReuseBoundary :=
  match query.bind fun q => q.tokens.map fun tokens => (q, tokens) with
  | some (q, tokens) => state.index.lookup U worker source.epoch tokens q.identity q.options
  | none => some (.unavailable .unsupportedMetadata)

/-- The loop of `correct` over the sources of the partition. -/
def correctSources (state : State H) (key : RoutingPartitionId) (blockSize : Nat)
    (query : Option GroupReuseQuery) : OverlapSignals → List (WorkerWithDpRank × Source) →
      Option OverlapSignals
  | overlap, [] => some overlap
  | overlap, (worker, source) :: rest =>
    if source.key ≠ key then correctSources state key blockSize query overlap rest
    else
      match sourceBoundary U state query worker source with
      | none => none
      | some boundary =>
        match applyDeviceBoundary overlap worker blockSize boundary with
        | none => none
        | some overlap' => correctSources state key blockSize query overlap' rest

/-- `GroupReuseIndex::correct`. -/
def State.correct (state : State H) (key : RoutingPartitionId) (blockSize : Nat)
    (overlap : OverlapSignals) (query : Option GroupReuseQuery) : Option OverlapSignals :=
  (correctSources U state key blockSize query overlap state.sources.entries).map fun overlap' =>
    if query.any fun q => q.cacheReadsDeclared = some false then .default else overlap'

end Correct

/-! ## The calls -/

/-- The lock-protected calls of the index. -/
inductive Call where
  | register (worker : WorkerWithDpRank) (key : RoutingPartitionId)
      (registration : GroupReuseRegistration)
  | applyBatch (worker : WorkerWithDpRank) (epoch cursor : UInt64) (payload : List UInt8)
  | invalidate (worker : WorkerWithDpRank) (epoch : UInt64)
  | retire (worker : WorkerWithDpRank)
  | remove (worker : WorkerWithDpRank)
  | removeWorker (workerId : UInt64)

/-- One call; `none` when it panics. -/
def step {H : Type} [DecidableEq H] (D : Decoding) (U : BlockHashing H) (state : State H) :
    Call → Option (State H)
  | .register worker key registration => state.register worker key registration
  | .applyBatch worker epoch cursor payload => state.applyBatch D U worker epoch cursor payload
  | .invalidate worker epoch => some (state.invalidate worker epoch)
  | .retire worker => some (state.retire worker)
  | .remove worker => some (state.remove worker)
  | .removeWorker workerId => some (state.removeWorker workerId)

end ReedCode.GroupReuse
