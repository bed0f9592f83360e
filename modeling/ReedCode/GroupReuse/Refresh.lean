import ReedCode.GroupReuse.Correction

/-!
# Refreshing the overlap at dispatch

`TieredOverlapRefresher` and `refresh_overlap_with_context` of `overlap_refresh.rs`, with the
`GroupCorrection` of `group_reuse.rs`, next to the functions they replace.

* `refreshWithContext`, `refreshOverlapWithContext` — the patched functions.
* `refresh`, `refreshOverlap` — the functions before the patch.
* `refresh_fails_closed` — a required correction always answers and lets no uncorrected credit
  through; without one nothing changes.

The tiered matches, `OverlapAnalysis` and `should_refresh_overlap` are not in the patch and are
parameters (`Upstream`).  The index is locked for each reading alone, so every reading may meet
another state (`Readings`).  `none` around a result is a panic; times are numbers of nanoseconds.
-/

set_option autoImplicit false

namespace ReedCode.GroupReuse

open GroupBoundary (WorkerWithDpRank GroupReuseQuery BlockHashing)

/-! ## The model -/

structure RefreshedOverlap (Candidates : Type) where
  overlap : OverlapSignals
  kvTransferCandidates : Option Candidates

/-- `RefreshedOverlap::default()`. -/
def RefreshedOverlap.default {Candidates : Type} : RefreshedOverlap Candidates := ⟨.default, none⟩

/-- The code around the patch: what the provider finds, `OverlapAnalysis::new(..).signals()`, the
candidates of a match, and `should_refresh_overlap`. -/
structure Upstream (Hash Tiered Candidates Err : Type) where
  findTieredMatches : List Hash → Bool → Except Err Tiered
  signals : Tiered → OverlapSignals
  kvTransferCandidates : Tiered → Option Candidates
  shouldRefreshOverlap : Bool → Option Nat → Option (List Hash) → Nat → Nat → Bool

/-- The state of the index each time its lock is taken: by `refresh_required` on entry, after a
provider error and at the end, and by `correct`. -/
structure Readings (H : Type) where
  onEntry : State H
  onError : State H
  onCorrect : State H
  atEnd : State H

def Readings.all {H : Type} (readings : Readings H) : List (State H) :=
  [readings.onEntry, readings.onError, readings.onCorrect, readings.atEnd]

/-- `contains_partition`. -/
def State.containsPartition {H : Type} (state : State H) (key : RoutingPartitionId) : Bool :=
  state.sources.entries.any fun entry => entry.2.key = key

structure GroupCorrection where
  key : RoutingPartitionId
  blockSize : Nat

def GroupCorrection.required {H : Type} (correction : GroupCorrection) (state : State H) : Bool :=
  state.containsPartition correction.key

def GroupCorrection.correct {H : Type} [DecidableEq H] (U : BlockHashing H)
    (correction : GroupCorrection) (state : State H) (overlap : OverlapSignals)
    (query : Option GroupReuseQuery) : Option OverlapSignals :=
  state.correct U correction.key correction.blockSize overlap query

/-- A refresher: a `TieredOverlapRefresher` with its correction, or one that keeps the defaults of
the trait. -/
inductive Refresher (Hash Candidates : Type) where
  | tiered (correction : Option GroupCorrection)
  | other (refresh : List Hash → Bool → Option (RefreshedOverlap Candidates))

section Model

variable {H Hash Tiered Candidates Err : Type} [DecidableEq H] (U : BlockHashing H)
  (up : Upstream Hash Tiered Candidates Err)

/-- `refresh_required`. -/
def Refresher.refreshRequired (refresher : Refresher Hash Candidates) (state : State H) : Bool :=
  match refresher with
  | .tiered correction => correction.any fun c => c.required state
  | .other _ => false

/-- `TieredOverlapRefresher::refresh_with_context`. -/
def refreshWithContext (correction : Option GroupCorrection) (readings : Readings H)
    (blockHashes : List Hash) (retainKvTransferChain : Bool) (query : Option GroupReuseQuery) :
    Option (Option (RefreshedOverlap Candidates)) :=
  let required (state : State H) : Bool := correction.any fun c => c.required state
  if blockHashes.isEmpty then some none
  else
    match up.findTieredMatches blockHashes retainKvTransferChain with
    | .error _ => some (if required readings.onError then some .default else none)
    | .ok tiered =>
      let corrected := match correction with
        | some c => c.correct U readings.onCorrect (up.signals tiered) query
        | none => some (up.signals tiered)
      corrected.map fun overlap => some
        { overlap
          kvTransferCandidates :=
            if retainKvTransferChain && !required readings.atEnd then
              up.kvTransferCandidates tiered
            else none }

def Refresher.refreshWithContext (refresher : Refresher Hash Candidates) (readings : Readings H)
    (blockHashes : List Hash) (retainKvTransferChain : Bool) (query : Option GroupReuseQuery) :
    Option (Option (RefreshedOverlap Candidates)) :=
  match refresher with
  | .tiered correction =>
    GroupReuse.refreshWithContext U up correction readings blockHashes retainKvTransferChain query
  | .other refresh => some (refresh blockHashes retainKvTransferChain)

/-- `refresh_overlap_with_context`. -/
def refreshOverlapWithContext (refresher : Option (Refresher Hash Candidates))
    (readings : Readings H) (refreshAfter : Option Nat) (blockHashes : Option (List Hash))
    (retainKvTransferChain : Bool) (enqueueAt now : Nat) (query : Option GroupReuseQuery) :
    Option (Option (RefreshedOverlap Candidates)) :=
  let required := refresher.any fun r => r.refreshRequired readings.onEntry
  if required && blockHashes.all List.isEmpty then some (some .default)
  else
    let refreshAfter := if required then some 0 else refreshAfter
    if !up.shouldRefreshOverlap refresher.isSome refreshAfter blockHashes enqueueAt now then
      some none
    else
      match refresher, blockHashes with
      | some r, some hashes => r.refreshWithContext U up readings hashes retainKvTransferChain query
      | _, _ => some none

/-- `TieredOverlapRefresher::refresh` before the patch. -/
def refresh (blockHashes : List Hash) (retainKvTransferChain : Bool) :
    Option (RefreshedOverlap Candidates) :=
  if blockHashes.isEmpty then none
  else
    match up.findTieredMatches blockHashes retainKvTransferChain with
    | .error _ => none
    | .ok tiered => some
      { overlap := up.signals tiered
        kvTransferCandidates :=
          if retainKvTransferChain then up.kvTransferCandidates tiered else none }

def Refresher.refresh (refresher : Refresher Hash Candidates) (blockHashes : List Hash)
    (retainKvTransferChain : Bool) : Option (RefreshedOverlap Candidates) :=
  match refresher with
  | .tiered _ => GroupReuse.refresh up blockHashes retainKvTransferChain
  | .other refresh => refresh blockHashes retainKvTransferChain

/-- `refresh_overlap` before the patch. -/
def refreshOverlap (refresher : Option (Refresher Hash Candidates)) (refreshAfter : Option Nat)
    (blockHashes : Option (List Hash)) (retainKvTransferChain : Bool) (enqueueAt now : Nat) :
    Option (RefreshedOverlap Candidates) :=
  if !up.shouldRefreshOverlap refresher.isSome refreshAfter blockHashes enqueueAt now then none
  else
    match refresher, blockHashes with
    | some r, some hashes => r.refresh up hashes retainKvTransferChain
    | _, _ => none

end Model

/-! ## Without a required correction -/

section Refresh

variable {H Hash Tiered Candidates Err : Type} [DecidableEq H] {U : BlockHashing H}
  {up : Upstream Hash Tiered Candidates Err} {readings : Readings H}
  {query : Option GroupReuseQuery}

/-- A correction that is not required changes nothing, unless the query declines reads. -/
theorem correct_of_not_required {correction : GroupCorrection} {state : State H}
    (hreq : correction.required state = false) (hreads : ¬ DeclinesReads query)
    (overlap : OverlapSignals) : correction.correct U state overlap query = some overlap := by
  have hall : ∀ (entries : List (WorkerWithDpRank × Source)),
      (entries.any fun entry => entry.2.key = correction.key) = false →
      correctSources U state correction.key correction.blockSize query overlap entries =
        some overlap := by
    intro entries
    induction entries with
    | nil => exact fun _ => rfl
    | cons entry entries ih =>
      intro hany
      rw [List.any_cons, Bool.or_eq_false_iff, decide_eq_false_iff_not] at hany
      rw [correctSources, if_pos hany.1]
      exact ih hany.2
  rw [GroupCorrection.correct, State.correct, hall _ hreq, Option.map_some,
    if_neg fun he => hreads (declinesReads_iff.1 he)]

/-- The refresher of the patch does what the refresher did. -/
theorem refreshWithContext_of_not_required {refresher : Refresher Hash Candidates}
    (hreq : ∀ state ∈ readings.all, refresher.refreshRequired state = false)
    (hreads : ¬ DeclinesReads query) (blockHashes : List Hash) (retain : Bool) :
    refresher.refreshWithContext U up readings blockHashes retain query =
      some (refresher.refresh up blockHashes retain) := by
  cases refresher with
  | other refresh => rfl
  | tiered correction =>
    have herror : (correction.any fun c => c.required readings.onError) = false :=
      hreq readings.onError (by simp [Readings.all])
    have hcorrect : (correction.any fun c => c.required readings.onCorrect) = false :=
      hreq readings.onCorrect (by simp [Readings.all])
    have hend : (correction.any fun c => c.required readings.atEnd) = false :=
      hreq readings.atEnd (by simp [Readings.all])
    simp only [Refresher.refreshWithContext, Refresher.refresh, GroupReuse.refreshWithContext,
      GroupReuse.refresh]
    split
    · rfl
    · cases up.findTieredMatches blockHashes retain with
      | error e => simp [herror]
      | ok tiered =>
        simp only [hend, Bool.not_false, Bool.and_true]
        cases correction with
        | none => rfl
        | some c =>
          have hc : c.required readings.onCorrect = false := hcorrect
          simp only [correct_of_not_required hc hreads, Option.map_some]

theorem refreshOverlapWithContext_of_not_required {refresher : Option (Refresher Hash Candidates)}
    (hreq : ∀ state ∈ readings.all, (refresher.any fun r => r.refreshRequired state) = false)
    (hreads : ¬ DeclinesReads query) (refreshAfter : Option Nat)
    (blockHashes : Option (List Hash)) (retain : Bool) (enqueueAt now : Nat) :
    refreshOverlapWithContext U up refresher readings refreshAfter blockHashes retain enqueueAt now
        query =
      some (refreshOverlap up refresher refreshAfter blockHashes retain enqueueAt now) := by
  have hentry := hreq readings.onEntry (by simp [Readings.all])
  simp only [refreshOverlapWithContext, hentry, Bool.false_and, Bool.false_eq_true, if_false,
    refreshOverlap]
  split
  · rfl
  · cases refresher with
    | none => rfl
    | some r =>
      cases blockHashes with
      | none => rfl
      | some hashes => exact refreshWithContext_of_not_required hreq hreads hashes retain

/-! ## With a required correction -/

/-- An overlap that a correction of this state has gone through: no source of the partition that is
not dense has more than its boundary. -/
def WithinBoundaries (U : BlockHashing H) (correction : GroupCorrection) (state : State H)
    (query : Option GroupReuseQuery) (overlap : OverlapSignals) : Prop :=
  ∀ w source boundary tokens, state.sources.get? w = some source → source.key = correction.key →
    sourceBoundary U state query w source = some boundary → limitOf boundary = some tokens →
    overlap.deviceCredit w ≤ tokens / correction.blockSize ∧ overlap.hostPinned.get? w = none ∧
      overlap.disk.get? w = none

theorem withinBoundaries_default (correction : GroupCorrection) (state : State H) :
    WithinBoundaries U correction state query .default :=
  fun _ _ _ _ _ _ _ _ => ⟨Nat.zero_le _, rfl, rfl⟩

theorem withinBoundaries_correct {correction : GroupCorrection} {state : State H}
    {overlap overlap' : OverlapSignals}
    (h : correction.correct U state overlap query = some overlap') :
    WithinBoundaries U correction state query overlap' := by
  intro w source boundary tokens hsource hkey hboundary htokens
  by_cases hreads : DeclinesReads query
  · rw [correct_declined h hreads]
    exact ⟨Nat.zero_le _, rfl, rfl⟩
  · have hw : overlap'.credits w = (overlap.credits w).limit correction.blockSize tokens := by
      rw [credits_source h hreads hsource hkey hboundary, Credits.bound, htokens]
    refine ⟨?_, congrArg Credits.hostPinned hw, congrArg Credits.disk hw⟩
    change (overlap'.credits w).device.getD 0 ≤ _
    rw [hw, limit_device]
    exact Nat.min_le_right _ _

/-- The refresher answers and keeps within the boundaries, whatever the provider finds. -/
theorem refreshWithContext_required {correction : GroupCorrection}
    (hreq : ∀ state ∈ readings.all, correction.required state = true)
    (hpos : 0 < correction.blockSize) (hrostered : Rostered readings.onCorrect.index)
    {blockHashes : List Hash} (hhashes : blockHashes ≠ []) (retain : Bool) :
    ∃ refreshed, (Refresher.tiered (some correction)).refreshWithContext U up readings blockHashes
        retain query = some (some refreshed) ∧ refreshed.kvTransferCandidates = none ∧
      WithinBoundaries U correction readings.onCorrect query refreshed.overlap := by
  have herror := hreq readings.onError (by simp [Readings.all])
  have hend := hreq readings.atEnd (by simp [Readings.all])
  simp only [Refresher.refreshWithContext, GroupReuse.refreshWithContext, Option.any_some, hend,
    herror, Bool.not_true, Bool.and_false, Bool.false_eq_true, if_false, if_true]
  rw [if_neg fun he => hhashes (List.isEmpty_iff.1 he)]
  cases up.findTieredMatches blockHashes retain with
  | error e => exact ⟨.default, rfl, rfl, withinBoundaries_default _ _⟩
  | ok tiered =>
    obtain ⟨overlap, hoverlap⟩ : ∃ overlap,
        correction.correct U readings.onCorrect (up.signals tiered) query = some overlap := by
      refine Option.isSome_iff_exists.1 ((correct_isSome hpos).2 fun w source _ _ => ?_)
      exact sourceBoundary_isSome hrostered w source
    exact ⟨⟨overlap, none⟩, by simp only [hoverlap, Option.map_some], rfl,
      withinBoundaries_correct hoverlap⟩

/-- **A required refresh fails closed.**  If `should_refresh_overlap` lets a refresher with block
hashes and no delay through: a required correction makes every refresh answer, without transfer
candidates and within the boundaries; without one, and unless the query declines reads, the answer
is the one before the patch. -/
theorem refresh_fails_closed (U : BlockHashing H) (up : Upstream Hash Tiered Candidates Err)
    (hshould : ∀ hashes enqueueAt now, hashes ≠ [] →
      up.shouldRefreshOverlap true (some 0) (some hashes) enqueueAt now = true) :
    (∀ (correction : GroupCorrection) (readings : Readings H) (D : Decoding) (calls : List Call)
        refreshAfter blockHashes retain enqueueAt now query, 0 < correction.blockSize →
      Runs.run (step D U) .default calls = some readings.onCorrect →
      (∀ state ∈ readings.all, correction.required state = true) →
      ∃ refreshed, refreshOverlapWithContext U up (some (.tiered (some correction))) readings
          refreshAfter blockHashes retain enqueueAt now query = some (some refreshed) ∧
        refreshed.kvTransferCandidates = none ∧
        WithinBoundaries U correction readings.onCorrect query refreshed.overlap) ∧
    (∀ (refresher : Option (Refresher Hash Candidates)) (readings : Readings H)
        refreshAfter blockHashes retain enqueueAt now query,
      (∀ state ∈ readings.all, (refresher.any fun r => r.refreshRequired state) = false) →
      ¬ DeclinesReads query →
      refreshOverlapWithContext U up refresher readings refreshAfter blockHashes retain enqueueAt
          now query =
        some (refreshOverlap up refresher refreshAfter blockHashes retain enqueueAt now)) := by
  constructor
  · intro correction readings D calls refreshAfter blockHashes retain enqueueAt now query hpos hr
      hreq
    have hentry : ((some (Refresher.tiered (some correction)) :
        Option (Refresher Hash Candidates)).any fun r => r.refreshRequired readings.onEntry) =
        true := hreq readings.onEntry (by simp [Readings.all])
    simp only [refreshOverlapWithContext, hentry, Bool.true_and, if_true]
    by_cases hhashes : blockHashes.all List.isEmpty = true
    · rw [if_pos hhashes]
      exact ⟨.default, rfl, rfl, withinBoundaries_default _ _⟩
    · rw [if_neg hhashes]
      cases blockHashes with
      | none => exact absurd rfl hhashes
      | some hashes =>
        have hne : hashes ≠ [] := fun he => hhashes (by rw [he]; rfl)
        rw [Option.isSome_some, hshould hashes enqueueAt now hne]
        exact refreshWithContext_required hreq hpos (rostered_run hr) hne retain
  · intro refresher readings refreshAfter blockHashes retain enqueueAt now query hreq hreads
    exact refreshOverlapWithContext_of_not_required hreq hreads refreshAfter blockHashes retain
      enqueueAt now

end Refresh

/-- A provider that finds nothing, or four raw device blocks and a transfer candidate. -/
def exampleUpstream (online : Bool) : Upstream Nat Unit Nat String where
  findTieredMatches _ _ := if online then .ok () else .error "offline"
  signals _ := rawOverlap
  kvTransferCandidates _ := some 9
  shouldRefreshOverlap present refreshAfter hashes enqueueAt now :=
    present && hashes.isSome && refreshAfter.any fun after => enqueueAt + after ≤ now ∨ after = 0

/-- With the provider on line and off line, and without a correction. -/
theorem refresh_fails_closed_example : ∃ state refreshed offline,
    Runs.run (step storeDecoding GroupBoundary.plainHashing) .default storeCalls = some state ∧
    refreshOverlapWithContext GroupBoundary.plainHashing (exampleUpstream true)
      (some (.tiered (some ⟨⟨"model", "default"⟩, 2⟩))) ⟨state, state, state, state⟩ none
      (some [1]) true 5 5 (some storeQuery) = some (some refreshed) ∧
    refreshed.overlap.deviceCredit ⟨7, 0⟩ ≤ 1 ∧ refreshed.kvTransferCandidates = none ∧
    refreshOverlapWithContext GroupBoundary.plainHashing (exampleUpstream false)
      (some (.tiered (some ⟨⟨"model", "default"⟩, 2⟩))) ⟨state, state, state, state⟩ none
      (some [1]) true 5 5 (some storeQuery) = some (some offline) ∧
    refreshOverlapWithContext GroupBoundary.plainHashing (exampleUpstream true)
      (some (.tiered none)) ⟨state, state, state, state⟩ none (some [1]) true 5 5 none =
      some (refreshOverlap (exampleUpstream true) (some (.tiered none)) none (some [1]) true
        5 5) := by
  obtain ⟨state, hr, hreq, source, hsource, hkey, hboundary⟩ : ∃ state,
      Runs.run (step storeDecoding GroupBoundary.plainHashing) .default storeCalls = some state ∧
      state.containsPartition ⟨"model", "default"⟩ = true ∧
      ∃ source, state.sources.get? ⟨7, 0⟩ = some source ∧ source.key = ⟨"model", "default"⟩ ∧
        sourceBoundary GroupBoundary.plainHashing state (some storeQuery) ⟨7, 0⟩ source =
          some (.available 2) :=
    ⟨_, rfl, by decide +kernel, _, rfl, rfl, by decide⟩
  have hshould : ∀ (online : Bool) (hashes : List Nat) (enqueueAt now : Nat), hashes ≠ [] →
      (exampleUpstream online).shouldRefreshOverlap true (some 0) (some hashes) enqueueAt now =
        true := by
    intro online hashes enqueueAt now _
    simp [exampleUpstream]
  have hall : ∀ s ∈ Readings.all ⟨state, state, state, state⟩,
      (⟨⟨"model", "default"⟩, 2⟩ : GroupCorrection).required s = true := by
    intro s hs
    have hstate : s = state := by simpa [Readings.all] using hs
    exact hstate ▸ hreq
  obtain ⟨hrequired, hplain⟩ := refresh_fails_closed (H := List UInt32)
    GroupBoundary.plainHashing (exampleUpstream true) (hshould true)
  obtain ⟨refreshed, hanswer, hcandidates, hwithin⟩ := hrequired ⟨⟨"model", "default"⟩, 2⟩
    ⟨state, state, state, state⟩ storeDecoding storeCalls none (some [1]) true 5 5
    (some storeQuery) Nat.two_pos hr hall
  obtain ⟨offline, hoffline, _⟩ := (refresh_fails_closed GroupBoundary.plainHashing
    (exampleUpstream false) (hshould false)).1 ⟨⟨"model", "default"⟩, 2⟩
    ⟨state, state, state, state⟩ storeDecoding storeCalls none (some [1]) true 5 5
    (some storeQuery) Nat.two_pos hr hall
  refine ⟨state, refreshed, offline, hr, hanswer,
    (hwithin ⟨7, 0⟩ source (.available 2) 2 hsource hkey hboundary rfl).1, hcandidates, hoffline, ?_⟩
  refine hplain _ _ _ _ _ _ _ _ (fun s _ => rfl) ?_
  rintro ⟨q, hq, _⟩
  cases hq

end ReedCode.GroupReuse
