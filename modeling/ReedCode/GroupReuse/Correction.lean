import ReedCode.GroupBoundary.Residency
import ReedCode.GroupReuse.FailClosed

/-!
# What a correction does to each worker

`GroupReuseIndex::correct` goes through a hash map and rewrites five maps worker by worker.

* `Credits` — what the five maps hold of one worker; `Credits.bound` — what one boundary makes of it.
* `credits_correct` — a correction bounds every worker by its own boundary, and no other.
* `rostered_run` — in a run every registered group has its maps, so no look-up panics.
* `correct_own_boundary` — from both: order, reset, frame, repetition and what a correction allows.
-/

set_option autoImplicit false

namespace ReedCode.GroupReuse

open GroupBoundary (WorkerWithDpRank GroupReuseQuery GroupBoundaryIndex BlockHashing ReuseBoundary
  WorkerState GroupsPresent)

/-! ## The credits of one worker -/

structure Credits where
  device : Option Nat
  hostPinned : Option Nat
  disk : Option Nat
  overlapBlocks : Option Rat
  cachedTokens : Option Nat
  deriving DecidableEq

def OverlapSignals.credits (signals : OverlapSignals) (w : WorkerWithDpRank) : Credits where
  device := signals.device.get? w
  hostPinned := signals.hostPinned.get? w
  disk := signals.disk.get? w
  overlapBlocks := signals.effectiveOverlapBlocks.get? w
  cachedTokens := signals.effectiveCachedTokens.get? w

/-- No more device blocks than these tokens fill, and nothing of the other tiers. -/
def Credits.limit (blockSize tokens : Nat) (c : Credits) : Credits :=
  let blocks := min (c.device.getD 0) (tokens / blockSize)
  ⟨some blocks, none, none, some blocks, some (blocks * blockSize)⟩

/-- The tokens a boundary allows; none where it sets no limit. -/
def limitOf : ReuseBoundary → Option Nat
  | .denseOnly => none
  | .available tokens => some tokens
  | .unavailable _ => some 0

def Credits.bound (blockSize : Nat) (boundary : ReuseBoundary) (c : Credits) : Credits :=
  match limitOf boundary with
  | none => c
  | some tokens => c.limit blockSize tokens

@[simp] theorem limit_device (blockSize tokens : Nat) (c : Credits) :
    (c.limit blockSize tokens).device = some (min (c.device.getD 0) (tokens / blockSize)) := rfl

theorem limit_limit (blockSize tokens : Nat) (c : Credits) :
    (c.limit blockSize tokens).limit blockSize tokens = c.limit blockSize tokens := by
  have hmin : min (min (c.device.getD 0) (tokens / blockSize)) (tokens / blockSize) =
      min (c.device.getD 0) (tokens / blockSize) := Nat.min_eq_left (Nat.min_le_right _ _)
  unfold Credits.limit
  simp only [Option.getD_some, hmin]

/-- A boundary binds once. -/
theorem bound_bound (blockSize : Nat) (boundary : ReuseBoundary) (c : Credits) :
    (c.bound blockSize boundary).bound blockSize boundary = c.bound blockSize boundary := by
  unfold Credits.bound
  cases limitOf boundary with
  | none => rfl
  | some tokens => exact limit_limit blockSize tokens c

theorem bound_le (blockSize : Nat) (boundary : ReuseBoundary) (c : Credits) :
    (c.bound blockSize boundary).device.getD 0 ≤ c.device.getD 0 := by
  unfold Credits.bound
  cases limitOf boundary with
  | none => exact Nat.le_refl _
  | some tokens => exact Nat.min_le_left _ _

/-! ## One boundary -/

theorem applyDeviceBoundary_isSome {blockSize : Nat} (hpos : 0 < blockSize)
    (signals : OverlapSignals) (worker : WorkerWithDpRank) (boundary : ReuseBoundary) :
    (applyDeviceBoundary signals worker blockSize boundary).isSome := by
  unfold applyDeviceBoundary
  cases boundary with
  | denseOnly => rfl
  | available tokens => simp [Nat.ne_of_gt hpos]
  | unavailable reason => simp [Nat.ne_of_gt hpos]

/-- One boundary changes the credits of its worker only. -/
theorem credits_applyDeviceBoundary {signals signals' : OverlapSignals}
    {worker : WorkerWithDpRank} {blockSize : Nat} {boundary : ReuseBoundary}
    (h : applyDeviceBoundary signals worker blockSize boundary = some signals')
    (w : WorkerWithDpRank) :
    signals'.credits w =
      if worker = w then (signals.credits w).bound blockSize boundary else signals.credits w := by
  have hlimit : ∀ {tokens : Nat} {blocks : Nat},
      blocks = min (signals.deviceCredit worker) (tokens / blockSize) →
      OverlapSignals.credits
        { device := signals.device.insert worker blocks
          hostPinned := signals.hostPinned.erase worker
          disk := signals.disk.erase worker
          effectiveOverlapBlocks := signals.effectiveOverlapBlocks.insert worker blocks
          effectiveCachedTokens :=
            signals.effectiveCachedTokens.insert worker (blocks * blockSize) } w =
        if worker = w then (signals.credits w).limit blockSize tokens else signals.credits w := by
    intro tokens blocks hblocks
    simp only [OverlapSignals.credits, FinMap.get?_insert, FinMap.get?_erase]
    split
    · rename_i hw
      subst hw
      subst hblocks
      rfl
    · rfl
  unfold applyDeviceBoundary at h
  cases boundary with
  | denseOnly =>
    cases h
    exact (ite_self _).symm
  | available tokens =>
    simp only at h
    split at h
    · cases h
    · cases h
      exact hlimit rfl
  | unavailable reason =>
    simp only at h
    split at h
    · cases h
    · cases h
      exact hlimit rfl

/-! ## All boundaries -/

section Sources

variable {H : Type} [DecidableEq H] {U : BlockHashing H} {state : State H}
  {key : RoutingPartitionId} {blockSize : Nat} {query : Option GroupReuseQuery}

/-- What the source of a worker, if it has one, makes of the credits. -/
def boundBy (U : BlockHashing H) (state : State H) (key : RoutingPartitionId) (blockSize : Nat)
    (query : Option GroupReuseQuery) (w : WorkerWithDpRank) (source : Option Source)
    (c : Credits) : Credits :=
  match source with
  | none => c
  | some source =>
    if source.key = key then
      match sourceBoundary U state query w source with
      | none => c
      | some boundary => c.bound blockSize boundary
    else c

theorem boundBy_boundBy (w : WorkerWithDpRank) (source : Option Source) (c : Credits) :
    boundBy U state key blockSize query w source
        (boundBy U state key blockSize query w source c) =
      boundBy U state key blockSize query w source c := by
  unfold boundBy
  cases source with
  | none => rfl
  | some source =>
    dsimp only
    split
    · cases sourceBoundary U state query w source with
      | none => rfl
      | some boundary => exact bound_bound blockSize boundary c
    · rfl

/-- The loop ends without a panic exactly if no look-up panics. -/
theorem correctSources_isSome (hpos : 0 < blockSize) :
    ∀ {entries : List (WorkerWithDpRank × Source)} {overlap : OverlapSignals},
      (correctSources U state key blockSize query overlap entries).isSome ↔
        ∀ w source, (w, source) ∈ entries → source.key = key →
          (sourceBoundary U state query w source).isSome
  | [], overlap => by simp [correctSources]
  | (worker, source) :: rest, overlap => by
    rw [correctSources]
    split
    · rename_i hkey
      rw [correctSources_isSome hpos]
      constructor
      · intro h w s hmem hk
        rcases List.mem_cons.1 hmem with he | hmem
        · cases he
          exact absurd hk hkey
        · exact h w s hmem hk
      · exact fun h w s hmem hk => h w s (List.mem_cons_of_mem _ hmem) hk
    · rename_i hkey
      have hkey' : source.key = key := Classical.not_not.1 hkey
      cases hboundary : sourceBoundary U state query worker source with
      | none =>
        refine iff_of_false (by simp) fun h => ?_
        have := h worker source List.mem_cons_self hkey'
        rw [hboundary] at this
        cases this
      | some boundary =>
        obtain ⟨overlap₁, h₁⟩ := Option.isSome_iff_exists.1
          (applyDeviceBoundary_isSome hpos overlap worker boundary)
        simp only [h₁]
        rw [correctSources_isSome hpos]
        constructor
        · intro h w s hmem hk
          rcases List.mem_cons.1 hmem with he | hmem
          · cases he
            rw [hboundary]
            rfl
          · exact h w s hmem hk
        · exact fun h w s hmem hk => h w s (List.mem_cons_of_mem _ hmem) hk

/-- **The loop bounds each worker once**, by the boundary of its entry. -/
theorem credits_correctSources (w : WorkerWithDpRank) :
    ∀ {entries : List (WorkerWithDpRank × Source)} {overlap overlap' : OverlapSignals},
      (entries.map Prod.fst).Nodup →
      correctSources U state key blockSize query overlap entries = some overlap' →
      overlap'.credits w =
        boundBy U state key blockSize query w (FinMap.lookupEntry w entries) (overlap.credits w)
  | [], overlap, overlap', _, h => by
    cases h
    rfl
  | (worker, source) :: rest, overlap, overlap', hnodup, h => by
    rw [List.map_cons, List.nodup_cons] at hnodup
    rw [correctSources] at h
    rw [FinMap.lookupEntry]
    split at h
    · rename_i hkey
      rw [credits_correctSources w hnodup.2 h]
      split
      · -- the worker has no second entry
        rename_i hw
        have hnone : FinMap.lookupEntry w rest = none := by
          rw [← Option.not_isSome_iff_eq_none, FinMap.lookupEntry_isSome, ← hw]
          exact hnodup.1
        simp only [hnone, boundBy, if_neg hkey]
      · rfl
    rename_i hkey
    have hkey' : source.key = key := Classical.not_not.1 hkey
    split at h
    · cases h
    rename_i boundary hboundary
    split at h
    · cases h
    rename_i overlap₁ h₁
    rw [credits_correctSources w hnodup.2 h, credits_applyDeviceBoundary h₁]
    by_cases hw : worker = w
    · have hnone : FinMap.lookupEntry w rest = none := by
        rw [← Option.not_isSome_iff_eq_none, FinMap.lookupEntry_isSome, ← hw]
        exact hnodup.1
      rw [hnone, if_pos hw, if_pos hw]
      subst hw
      simp only [boundBy, if_pos hkey', hboundary]
    · rw [if_neg hw, if_neg hw]

end Sources

/-! ## Look-ups that return -/

/-- Every registered group has its maps. -/
def Rostered {H : Type} (index : GroupBoundaryIndex H) : Prop :=
  ∀ w ws, index.workers.get? w = some ws → GroupsPresent ws

section Rostered

variable {H : Type} {index index' : GroupBoundaryIndex H} {worker : WorkerWithDpRank}

theorem rostered_insert {ws : WorkerState H} (h : Rostered index) (hws : GroupsPresent ws) :
    Rostered { index with workers := index.workers.insert worker ws } := by
  intro w ws' hw
  rw [FinMap.get?_insert] at hw
  split at hw
  · cases hw
    exact hws
  · exact h w ws' hw

theorem rostered_register (h : Rostered index) (generation : UInt64)
    (specs : List GroupBoundary.GroupSpec) : Rostered (index.register worker generation specs) := by
  refine rostered_insert h fun spec hspec => ?_
  rw [FinMap.isSome_get?_ofList, List.map_map]
  exact List.mem_map_of_mem hspec

theorem rostered_remove (h : Rostered index) : Rostered (index.remove worker) := by
  intro w ws hw
  rw [GroupBoundaryIndex.remove, FinMap.get?_erase] at hw
  split at hw
  · cases hw
  · exact h w ws hw

theorem rostered_invalidate (h : Rostered index) (generation : UInt64)
    (reason : GroupBoundary.Unavailable) :
    Rostered (index.invalidate worker generation reason) := by
  unfold GroupBoundaryIndex.invalidate
  split
  · exact h
  · rename_i ws hws
    split
    · exact rostered_insert h (h worker ws hws).mapVals
    · exact h

variable [DecidableEq H] {U : BlockHashing H}

/-- No event takes away a group. -/
theorem groupsPresent_receive {maxEntries : Nat} {ws ws' : WorkerState H}
    {generation sequence : UInt64} {event : GroupBoundary.GroupEvent}
    {result : Except GroupBoundary.Unavailable Unit} (h : GroupsPresent ws)
    (hr : ws.receive U maxEntries generation sequence event = some (ws', result)) :
    GroupsPresent ws' := by
  have hadvance : GroupsPresent ws.advance := h
  cases GroupBoundary.receive_cases hr with
  | foreign => exact h
  | gap => exact h.mapVals
  | ownedClear => exact hadvance.mapVals
  | cleared => exact hadvance.mapVals
  | refused => exact hadvance
  | failed => exact hadvance.mapVals
  | absorbed _ _ _ _ _ happ _ => exact hadvance.apply happ

theorem rostered_apply {generation sequence : UInt64} {event : GroupBoundary.GroupEvent}
    {result : Except GroupBoundary.Unavailable Unit} (h : Rostered index)
    (happ : index.apply U worker generation sequence event = some (index', result)) :
    Rostered index' := by
  unfold GroupBoundaryIndex.apply at happ
  split at happ
  · cases happ
    exact h
  · rename_i ws hws
    rw [Option.map_eq_some_iff] at happ
    obtain ⟨⟨ws', r⟩, hr, he⟩ := happ
    cases he
    exact rostered_insert h (groupsPresent_receive (h worker ws hws) hr)

theorem allowedEnds_isSome {groups : FinMap Nat (GroupBoundary.GroupState H)}
    (tokens : List UInt32) (identity : GroupBoundary.CacheIdentity) :
    ∀ {specs : List GroupBoundary.GroupSpec} {allowed : Option (List Nat)},
      (∀ spec ∈ specs, (groups.get? spec.groupIdx).isSome) →
      (GroupBoundaryIndex.allowedEnds U groups tokens identity allowed specs).isSome
  | [], _, _ => rfl
  | spec :: specs, allowed, h => by
    obtain ⟨group, hgroup⟩ := Option.isSome_iff_exists.1 (h spec List.mem_cons_self)
    rw [GroupBoundaryIndex.allowedEnds]
    simp only [hgroup]
    exact allowedEnds_isSome tokens identity fun s hs => h s (List.mem_cons_of_mem _ hs)

theorem lookup_isSome (h : Rostered index) (generation : UInt64) (tokens : List UInt32)
    (identity : GroupBoundary.CacheIdentity) (options : GroupBoundary.QueryOptions) :
    (index.lookup U worker generation tokens identity options).isSome := by
  unfold GroupBoundaryIndex.lookup
  split
  · rfl
  split
  · rfl
  split
  · rfl
  rename_i ws hws
  split
  · rfl
  split
  · rfl
  split
  · rfl
  · rw [Option.isSome_map]
    exact allowedEnds_isSome tokens identity (h worker ws hws)

variable {D : Decoding} {state state' : State H}

theorem rostered_applyEvents {epoch : UInt64} : ∀ {raws : List Value} {state state' : State H},
    Rostered state.index → state.applyEvents D U worker epoch raws = some state' →
      Rostered state'.index
  | [], state, state', h, ha => by
    cases ha
    exact h
  | raw :: raws, state, state', h, ha => by
    rw [State.applyEvents] at ha
    split at ha
    · cases ha
    rename_i state₁ h₁
    refine rostered_applyEvents ?_ ha
    unfold State.applyEvent at h₁
    split at h₁
    · cases h₁
      exact rostered_invalidate h epoch _
    split at h₁
    · cases h₁
    rw [Option.map_eq_some_iff] at h₁
    obtain ⟨⟨index', r⟩, happ, he⟩ := h₁
    cases he
    exact rostered_apply h happ

theorem rostered_applyBatch {epoch cursor : UInt64} {payload : List UInt8}
    (h : Rostered state.index)
    (ha : state.applyBatch D U worker epoch cursor payload = some state') :
    Rostered state'.index := by
  unfold State.applyBatch at ha
  split at ha
  · cases ha
    exact h
  rename_i source _
  split at ha
  · cases ha
    exact h
  split at ha
  · cases ha
    exact h
  have hcursor : Rostered (state.receiveCursor worker epoch cursor source).index := by
    unfold State.receiveCursor
    dsimp only
    split
    · exact rostered_invalidate h epoch _
    · exact h
  dsimp only at ha
  split at ha
  · cases ha
    exact rostered_invalidate hcursor epoch _
  · split at ha
    · cases ha
      exact rostered_invalidate hcursor epoch _
    · exact rostered_applyEvents hcursor ha

theorem rostered_step {call : Call} (h : Rostered state.index)
    (hs : step D U state call = some state') : Rostered state'.index := by
  cases call with
  | register worker key registration =>
    simp only [step, State.register] at hs
    split at hs
    · cases hs
    · cases hs
      exact rostered_register h _ _
  | applyBatch worker epoch cursor payload => exact rostered_applyBatch h hs
  | invalidate worker epoch =>
    cases hs
    exact rostered_invalidate h epoch _
  | retire worker =>
    cases hs
    exact rostered_remove h
  | remove worker =>
    cases hs
    exact rostered_remove h
  | removeWorker workerId =>
    cases hs
    unfold State.removeWorker
    have hall : ∀ (ws : List WorkerWithDpRank) (s : State H), Rostered s.index →
        Rostered (ws.foldl State.remove s).index := by
      intro ws
      induction ws with
      | nil => exact fun _ hs => hs
      | cons w ws ih => exact fun s hs => ih _ (rostered_remove hs)
    exact hall _ _ h

theorem rostered_run {calls : List Call}
    (hr : Runs.run (step D U) .default calls = some state) : Rostered state.index := by
  have hstart : Rostered (State.default : State H).index := fun w ws hw => (by cases hw)
  exact Runs.run_induction (P := fun s : State H => Rostered s.index)
    (fun _ _ _ h hs => rostered_step h hs) hstart hr

end Rostered

/-! ## The correction -/

section Correct

variable {H : Type} [DecidableEq H] {U : BlockHashing H} {state : State H}
  {key : RoutingPartitionId} {blockSize : Nat} {query : Option GroupReuseQuery}
  {overlap overlap' : OverlapSignals}

/-- The query declares that its cache reads are off. -/
def DeclinesReads (query : Option GroupReuseQuery) : Prop :=
  ∃ q, query = some q ∧ q.cacheReadsDeclared = some false

theorem declinesReads_iff :
    (query.any fun q => q.cacheReadsDeclared = some false) = true ↔ DeclinesReads query := by
  cases query with
  | none => simp [DeclinesReads]
  | some q => simp [DeclinesReads]

/-- **A correction bounds every worker by its own boundary.** -/
theorem credits_correct (h : state.correct U key blockSize overlap query = some overlap')
    (hreads : ¬ DeclinesReads query) (w : WorkerWithDpRank) :
    overlap'.credits w =
      boundBy U state key blockSize query w (state.sources.get? w) (overlap.credits w) := by
  rw [State.correct, Option.map_eq_some_iff] at h
  obtain ⟨overlap₁, h₁, h₂⟩ := h
  rw [if_neg fun he => hreads (declinesReads_iff.1 he)] at h₂
  subst h₂
  exact credits_correctSources w state.sources.nodup h₁

theorem correct_declined (h : state.correct U key blockSize overlap query = some overlap')
    (hreads : DeclinesReads query) : overlap' = .default := by
  rw [State.correct, Option.map_eq_some_iff] at h
  obtain ⟨overlap₁, _, h₂⟩ := h
  rw [if_pos (declinesReads_iff.2 hreads)] at h₂
  exact h₂.symm

/-- What decides whether a correction returns: the look-ups of the partition. -/
theorem correct_isSome (hpos : 0 < blockSize) :
    (state.correct U key blockSize overlap query).isSome ↔
      ∀ w source, state.sources.get? w = some source → source.key = key →
        (sourceBoundary U state query w source).isSome := by
  rw [State.correct, Option.isSome_map, correctSources_isSome hpos]
  simp only [FinMap.mem_entries]

theorem sourceBoundary_isSome (h : Rostered state.index) (w : WorkerWithDpRank)
    (source : Source) : (sourceBoundary U state query w source).isSome := by
  unfold sourceBoundary
  split
  · exact lookup_isSome h _ _ _ _
  · rfl

/-- The same map in another order: the same credits. -/
theorem correct_reordered {state' : State H} (hpos : 0 < blockSize)
    (h : state.correct U key blockSize overlap query = some overlap')
    (hindex : state'.index = state.index)
    (hsources : ∀ w, state'.sources.get? w = state.sources.get? w) :
    ∃ other, state'.correct U key blockSize overlap query = some other ∧
      ∀ w, other.credits w = overlap'.credits w := by
  have hboundary : ∀ w source, sourceBoundary U state' query w source =
      sourceBoundary U state query w source := fun w source => by
    simp only [sourceBoundary, hindex]
  have hreturns : (state'.correct U key blockSize overlap query).isSome := by
    rw [correct_isSome hpos]
    intro w source hsource hkey
    rw [hboundary]
    exact (correct_isSome hpos).1 (Option.isSome_of_eq_some h) w source
      (hsources w ▸ hsource) hkey
  obtain ⟨other, hother⟩ := Option.isSome_iff_exists.1 hreturns
  refine ⟨other, hother, fun w => ?_⟩
  by_cases hreads : DeclinesReads query
  · rw [correct_declined hother hreads, correct_declined h hreads]
  · rw [credits_correct hother hreads, credits_correct h hreads, hsources]
    simp only [boundBy, hboundary]

/-- A second correction finds nothing to change. -/
theorem correct_twice (hpos : 0 < blockSize)
    (h : state.correct U key blockSize overlap query = some overlap') :
    ∃ twice, state.correct U key blockSize overlap' query = some twice ∧
      ∀ w, twice.credits w = overlap'.credits w := by
  have hreturns : (state.correct U key blockSize overlap' query).isSome := by
    rw [correct_isSome hpos]
    exact (correct_isSome hpos).1 (Option.isSome_of_eq_some h)
  obtain ⟨twice, htwice⟩ := Option.isSome_iff_exists.1 hreturns
  refine ⟨twice, htwice, fun w => ?_⟩
  by_cases hreads : DeclinesReads query
  · rw [correct_declined htwice hreads, correct_declined h hreads]
  · rw [credits_correct htwice hreads, credits_correct h hreads, boundBy_boundBy]

/-- A correction raises no credit, of whatever worker. -/
theorem correct_le (h : state.correct U key blockSize overlap query = some overlap')
    (w : WorkerWithDpRank) : overlap'.deviceCredit w ≤ overlap.deviceCredit w := by
  by_cases hreads : DeclinesReads query
  · rw [correct_declined h hreads]
    exact Nat.zero_le _
  · have hw : overlap'.credits w = _ := credits_correct h hreads w
    change (overlap'.credits w).device.getD 0 ≤ (overlap.credits w).device.getD 0
    rw [hw]
    unfold boundBy
    split
    · exact Nat.le_refl _
    split
    · split
      · exact Nat.le_refl _
      · exact bound_le _ _ _
    · exact Nat.le_refl _

/-- The credits of a source of the partition. -/
theorem credits_source (h : state.correct U key blockSize overlap query = some overlap')
    (hreads : ¬ DeclinesReads query) {w : WorkerWithDpRank} {source : Source}
    (hsource : state.sources.get? w = some source) (hkey : source.key = key)
    {boundary : ReuseBoundary} (hboundary : sourceBoundary U state query w source = some boundary) :
    overlap'.credits w = (overlap.credits w).bound blockSize boundary := by
  rw [credits_correct h hreads, hsource]
  simp only [boundBy, if_pos hkey, hboundary]

/-- **Every worker gets its own boundary.**  A correction returns in every state of a run; where it
returns, the order of the sources does not matter, a declined read empties all maps, else each
source that is not dense is limited by its boundary and every other worker keeps its entries, a
second correction changes nothing, and no credit exceeds the raw overlap or the boundary. -/
theorem correct_own_boundary (hpos : 0 < blockSize) (state : State H) (key : RoutingPartitionId)
    (overlap : OverlapSignals) (query : Option GroupReuseQuery) :
    (∀ (D : Decoding) (calls : List Call), Runs.run (step D U) .default calls = some state →
      (state.correct U key blockSize overlap query).isSome) ∧
    ∀ overlap', state.correct U key blockSize overlap query = some overlap' →
      (∀ state' : State H, state'.index = state.index →
        (∀ w, state'.sources.get? w = state.sources.get? w) →
        ∃ other, state'.correct U key blockSize overlap query = some other ∧
          ∀ w, other.credits w = overlap'.credits w) ∧
      (DeclinesReads query → overlap' = .default) ∧
      (¬ DeclinesReads query → ∀ w source boundary tokens,
        state.sources.get? w = some source → source.key = key →
        sourceBoundary U state query w source = some boundary → limitOf boundary = some tokens →
        overlap'.credits w = (overlap.credits w).limit blockSize tokens) ∧
      ((query.bind fun q => q.tokens) = none → ∀ w source,
        sourceBoundary U state query w source = some (.unavailable .unsupportedMetadata)) ∧
      (¬ DeclinesReads query → ∀ w,
        (∀ source, state.sources.get? w = some source → source.key = key →
          sourceBoundary U state query w source = some .denseOnly) →
        overlap'.credits w = overlap.credits w) ∧
      (∃ twice, state.correct U key blockSize overlap' query = some twice ∧
        ∀ w, twice.credits w = overlap'.credits w) ∧
      (∀ w, overlap'.deviceCredit w ≤ overlap.deviceCredit w ∧
        ∀ source boundary tokens, state.sources.get? w = some source → source.key = key →
          sourceBoundary U state query w source = some boundary → limitOf boundary = some tokens →
          overlap'.deviceCredit w ≤ tokens / blockSize) := by
  have hlimited : ∀ {overlap' w source boundary tokens},
      state.correct U key blockSize overlap query = some overlap' → ¬ DeclinesReads query →
      state.sources.get? w = some source → source.key = key →
      sourceBoundary U state query w source = some boundary → limitOf boundary = some tokens →
      overlap'.credits w = (overlap.credits w).limit blockSize tokens := by
    intro overlap' w source boundary tokens h hreads hsource hkey hboundary htokens
    rw [credits_source h hreads hsource hkey hboundary, Credits.bound, htokens]
  refine ⟨fun D calls hr => ?_, fun overlap' h => ⟨fun state' hindex hsources =>
    correct_reordered hpos h hindex hsources, correct_declined h, fun hreads w source boundary
    tokens => hlimited h hreads, fun hnone w source => ?_, fun hreads w hdense => ?_,
    correct_twice hpos h, fun w => ⟨correct_le h w, ?_⟩⟩⟩
  · rw [correct_isSome hpos]
    exact fun w source _ _ => sourceBoundary_isSome (rostered_run hr) w source
  · unfold sourceBoundary
    cases query with
    | none => rfl
    | some q =>
      have htokens : q.tokens = none := hnone
      simp only [Option.bind_some, htokens, Option.map_none]
  · rw [credits_correct h hreads]
    cases hsource : state.sources.get? w with
    | none => rfl
    | some source =>
      unfold boundBy
      dsimp only
      split
      · rename_i hkey
        rw [hdense source hsource hkey]
        rfl
      · rfl
  · intro source boundary tokens hsource hkey hboundary htokens
    by_cases hreads : DeclinesReads query
    · rw [correct_declined h hreads]
      exact Nat.zero_le _
    · have hw := hlimited h hreads hsource hkey hboundary htokens
      change (overlap'.credits w).device.getD 0 ≤ _
      rw [hw, limit_device]
      exact Nat.min_le_right _ _

end Correct

/-- Four raw device blocks and a host block of a worker whose boundary stands at two tokens. -/
def rawOverlap : OverlapSignals :=
  { OverlapSignals.default with
    device := .ofList [(⟨7, 0⟩, 4), (⟨8, 0⟩, 3)]
    hostPinned := .ofList [(⟨7, 0⟩, 1)] }

def storeQuery : GroupReuseQuery := ⟨some true, some [1, 2, 3], ⟨none, none⟩, .ordinary⟩

theorem correct_own_boundary_example : ∃ state overlap',
    Runs.run (step storeDecoding GroupBoundary.plainHashing) .default storeCalls = some state ∧
    state.correct GroupBoundary.plainHashing ⟨"model", "default"⟩ 2 rawOverlap
      (some storeQuery) = some overlap' ∧
    overlap'.credits ⟨7, 0⟩ = ⟨some 1, none, none, some 1, some 2⟩ ∧
    overlap'.credits ⟨8, 0⟩ = ⟨some 3, none, none, none, none⟩ := by
  obtain ⟨state, hr, source, hsource, hkey, hboundary, hother⟩ : ∃ state,
      Runs.run (step storeDecoding GroupBoundary.plainHashing) .default storeCalls = some state ∧
      ∃ source, state.sources.get? ⟨7, 0⟩ = some source ∧ source.key = ⟨"model", "default"⟩ ∧
        sourceBoundary GroupBoundary.plainHashing state (some storeQuery) ⟨7, 0⟩ source =
          some (.available 2) ∧ state.sources.get? ⟨8, 0⟩ = none :=
    ⟨_, rfl, _, rfl, rfl, by decide, rfl⟩
  obtain ⟨hreturns, hall⟩ := correct_own_boundary (U := GroupBoundary.plainHashing)
    Nat.two_pos state ⟨"model", "default"⟩ rawOverlap (some storeQuery)
  obtain ⟨overlap', h⟩ := Option.isSome_iff_exists.1 (hreturns storeDecoding storeCalls hr)
  have hreads : ¬ DeclinesReads (some storeQuery) := by
    rw [← declinesReads_iff]
    decide
  obtain ⟨-, -, hlimit, -, hframe, -, -⟩ := hall overlap' h
  refine ⟨state, overlap', hr, h, ?_, ?_⟩
  · rw [hlimit hreads _ _ _ _ hsource hkey hboundary rfl]
    decide +kernel
  · rw [hframe hreads ⟨8, 0⟩ fun s hs => by rw [hother] at hs; cases hs]
    decide +kernel

end ReedCode.GroupReuse
