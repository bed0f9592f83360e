import ReedCode.GroupBoundary.Lookup

/-!
# Invalid manifests

A worker that failed with `InvalidManifest` described its groups wrongly, so nothing its
events say can be trusted until it registers again.  The clear event spares this reason; the
other failures write the same field.

* `receive_invalidManifest_iff` — which calls of `apply` leave the reason in place;
* `invalidManifest_sticky` — a run none of whose calls overwrites the reason never answers
  with credit;
* `invalidManifest_overwritten` — a gap overwrites the reason and a clear then heals it.
-/

set_option autoImplicit false

namespace ReedCode.GroupBoundary

variable {H : Type} [DecidableEq H] {U : BlockHashing H}

/-- Lookup with ordinary options neither leaves the dense path in charge nor grants tokens. -/
def WithholdsCredit (U : BlockHashing H) (index : GroupBoundaryIndex H) (w : WorkerWithDpRank)
    (generation : UInt64) : Prop :=
  ∀ tokens identity,
    index.lookup U w generation tokens identity .ordinary ≠ some .denseOnly ∧
    ∀ e, 0 < e → index.lookup U w generation tokens identity .ordinary ≠ some (.available e)

/-- The worker is registered and its reason is `InvalidManifest`. -/
def HasInvalidManifest (index : GroupBoundaryIndex H) (w : WorkerWithDpRank) : Prop :=
  ∃ state, index.workers.get? w = some state ∧ state.unavailable = some .invalidManifest

/-- The call does not replace the worker's state, nor overwrite its reason: an event for its
generation arrives in sequence and is no owned clear, an invalidation repeats the reason. -/
def KeepsManifest (w : WorkerWithDpRank) (index : GroupBoundaryIndex H) : Call → Prop
  | .register worker _ _ | .remove worker => worker ≠ w
  | .apply worker generation sequence event => worker = w →
      ∀ state, index.workers.get? w = some state → state.generation = generation →
        sequence = state.nextSequence ∧ ∀ owner, event ≠ .allBlocksCleared (some owner)
  | .invalidate worker generation reason => worker = w →
      ∀ state, index.workers.get? w = some state → state.generation = generation →
        reason = .invalidManifest

theorem HasInvalidManifest.withholds {index : GroupBoundaryIndex H} {w : WorkerWithDpRank}
    (h : HasInvalidManifest index w) (generation : UInt64) :
    WithholdsCredit U index w generation := by
  obtain ⟨state, hw, hun⟩ := h
  have hno : ∀ {tokens identity boundary},
      index.lookup U w generation tokens identity .ordinary = some boundary →
        ¬ (boundary = .denseOnly ∨ ∃ e, 0 < e ∧ boundary = .available e) := by
    intro tokens identity boundary hl hb
    obtain ⟨state', hw', -, hvalid, -⟩ := lookup_credit hl hb
    rw [hw, Option.some.injEq] at hw'
    exact hvalid (hw' ▸ hun)
  exact fun tokens identity =>
    ⟨fun hl => hno hl (.inl rfl), fun e he hl => hno hl (.inr ⟨e, he, rfl⟩)⟩

/-- What keeps the reason over one event. -/
theorem receive_invalidManifest_iff {maxEntries : Nat} {state state' : WorkerState H}
    {generation sequence : UInt64} {event : GroupEvent} {result : Except Unavailable Unit}
    (hun : state.unavailable = some .invalidManifest)
    (h : state.receive U maxEntries generation sequence event = some (state', result)) :
    state'.unavailable = some .invalidManifest ↔ (state.generation = generation →
      sequence = state.nextSequence ∧ ∀ owner, event ≠ .allBlocksCleared (some owner)) := by
  cases receive_cases h with
  | foreign hgen => exact iff_of_true hun fun h => absurd h hgen
  | gap hgen hseq => exact iff_of_false (by simp) fun h => hseq (h hgen).1
  | ownedClear hgen _ owner hev => exact iff_of_false (by simp) fun h => (h hgen).2 owner hev
  | cleared _ hseq hev =>
    exact iff_of_true (clear_unavailable_of_invalid _ hun) fun _ =>
      ⟨hseq, fun owner => by simp [hev]⟩
  | refused _ hseq hev => exact iff_of_true hun fun _ => ⟨hseq, fun owner => hev _⟩
  | failed _ _ _ hnone => simp [hun] at hnone
  | absorbed _ _ _ hnone => simp [hun] at hnone

theorem HasInvalidManifest.step {index index' : GroupBoundaryIndex H} {w : WorkerWithDpRank}
    {call : Call} (hi : HasInvalidManifest index w) (hk : KeepsManifest w index call)
    (h : step U index call = some index') : HasInvalidManifest index' w := by
  obtain ⟨state, hw, hun⟩ := hi
  cases call with
  | register worker generation specs =>
    cases h
    exact ⟨state, by rw [GroupBoundaryIndex.register, FinMap.get?_insert, if_neg hk, hw], hun⟩
  | remove worker =>
    cases h
    exact ⟨state, by rw [GroupBoundaryIndex.remove, FinMap.get?_erase, if_neg hk, hw], hun⟩
  | invalidate worker generation reason =>
    cases h
    unfold GroupBoundaryIndex.invalidate
    split
    · exact ⟨state, hw, hun⟩
    rename_i s hs
    split
    · rename_i hgen
      by_cases he : worker = w
      · subst he
        rw [hs, Option.some.injEq] at hw
        refine ⟨s.fail reason, by rw [FinMap.get?_insert, if_pos rfl], ?_⟩
        rw [fail_unavailable, hk rfl s hs hgen]
      · exact ⟨state, by rw [FinMap.get?_insert, if_neg he, hw], hun⟩
    · exact ⟨state, hw, hun⟩
  | apply worker generation sequence event =>
    simp only [GroupBoundary.step, Option.map_eq_some_iff] at h
    obtain ⟨⟨i₁, result⟩, happ, rfl⟩ := h
    unfold GroupBoundaryIndex.apply at happ
    split at happ
    · cases happ
      exact ⟨state, hw, hun⟩
    rename_i s hs
    simp only [Option.map_eq_some_iff, Prod.mk.injEq] at happ
    obtain ⟨⟨s', r⟩, hrec, rfl, rfl⟩ := happ
    by_cases he : worker = w
    · subst he
      rw [hs, Option.some.injEq] at hw
      subst hw
      exact ⟨s', by rw [FinMap.get?_insert, if_pos rfl],
        (receive_invalidManifest_iff hun hrec).2 (hk rfl s hs)⟩
    · exact ⟨state, by rw [FinMap.get?_insert, if_neg he, hw], hun⟩

/-- **InvalidManifest is sticky in every run that does not overwrite it.** -/
theorem invalidManifest_sticky {w : WorkerWithDpRank} {calls : List Call}
    {index index' : GroupBoundaryIndex H} (hi : HasInvalidManifest index w)
    (hk : Runs.AllSteps (step U) (KeepsManifest w) index calls)
    (hr : Runs.run (step U) index calls = some index') (generation : UInt64) :
    WithholdsCredit U index' w generation := by
  have : HasInvalidManifest index' w :=
    Runs.allSteps_induction (P := (HasInvalidManifest · w))
      (fun _ _ _ hi hk hs => hi.step hk hs) hi hk hr
  exact this.withholds generation

/-- A registration, and an event for a group that the roster does not have. -/
def unknownGroupCalls : List Call :=
  [.register ⟨1, 0⟩ 7 [⟨0, .fullAttention, 2, none⟩, ⟨1, .mamba, 4, none⟩],
    .apply ⟨1, 0⟩ 7 0 (plainStore 9 2 [10] [1, 2])]

/-- A clear, and blocks stored after it. -/
def rebuildCalls : List Call :=
  [.apply ⟨1, 0⟩ 7 1 (.allBlocksCleared none),
    .apply ⟨1, 0⟩ 7 2 (plainStore 0 2 [10, 11] [1, 2, 3, 4]),
    .apply ⟨1, 0⟩ 7 3 (plainStore 1 4 [20] [1, 2, 3, 4])]

theorem invalidManifest_sticky_clear : ∃ index index',
    Runs.run (step plainHashing) (.new 8) unknownGroupCalls = some index ∧
    Runs.run (step plainHashing) index [.apply ⟨1, 0⟩ 7 1 (.allBlocksCleared none)] =
      some index' ∧
    WithholdsCredit plainHashing index' ⟨1, 0⟩ 7 := by
  obtain ⟨index, hr, state, hw, hun, hseq, index', hr'⟩ : ∃ index,
      Runs.run (step plainHashing) (.new 8) unknownGroupCalls = some index ∧ ∃ state,
        index.workers.get? ⟨1, 0⟩ = some state ∧ state.unavailable = some .invalidManifest ∧
        state.nextSequence = 1 ∧ ∃ index',
          Runs.run (step plainHashing) index [.apply ⟨1, 0⟩ 7 1 (.allBlocksCleared none)] =
            some index' :=
    ⟨_, rfl, _, rfl, rfl, rfl, _, rfl⟩
  have hkeeps : Runs.AllSteps (step plainHashing) (KeepsManifest ⟨1, 0⟩) index
      [.apply ⟨1, 0⟩ 7 1 (.allBlocksCleared none)] := by
    refine ⟨fun _ s hs _ => ?_, fun _ _ => trivial⟩
    rw [hw, Option.some.injEq] at hs
    exact hs ▸ ⟨hseq.symm, fun _ => by simp⟩
  exact ⟨index, index', hr, hr', invalidManifest_sticky ⟨state, hw, hun⟩ hkeeps hr' 7⟩

/-- **A gap overwrites the reason, and a clear then restores credit.** -/
theorem invalidManifest_overwritten : ∃ index index',
    Runs.run (step plainHashing) (.new 8) unknownGroupCalls = some index ∧
    HasInvalidManifest index ⟨1, 0⟩ ∧
    Runs.run (step plainHashing) index
      (.apply ⟨1, 0⟩ 7 5 (.allBlocksCleared none) :: rebuildCalls) = some index' ∧
    index'.lookup plainHashing ⟨1, 0⟩ 7 [1, 2, 3, 4, 5] ⟨none, none⟩ .ordinary =
      some (.available 4) ∧
    ¬ WithholdsCredit plainHashing index' ⟨1, 0⟩ 7 := by
  obtain ⟨index, index', hr, hi, hr', hl⟩ : ∃ index index',
      Runs.run (step plainHashing) (.new 8) unknownGroupCalls = some index ∧
      HasInvalidManifest index ⟨1, 0⟩ ∧
      Runs.run (step plainHashing) index
        (.apply ⟨1, 0⟩ 7 5 (.allBlocksCleared none) :: rebuildCalls) = some index' ∧
      index'.lookup plainHashing ⟨1, 0⟩ 7 [1, 2, 3, 4, 5] ⟨none, none⟩ .ordinary =
        some (.available 4) :=
    ⟨_, _, rfl, ⟨_, rfl, rfl⟩, rfl, by decide⟩
  exact ⟨index, index', hr, hi, hr', hl, fun h => (h _ _).2 4 (by decide) hl⟩

end ReedCode.GroupBoundary
