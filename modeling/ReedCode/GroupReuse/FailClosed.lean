import ReedCode.GroupReuse.Incidents
import ReedCode.GroupBoundary.Residency
import ReedCode.GroupBoundary.Lookup

/-!
# The group reuse index fails closed

Credit is granted only while nothing went wrong.  One invariant ties each source to the
boundary index and to the log of its worker (`ViewOk`); every atomic change of a worker keeps
it, a batch is a sequence of such changes, and a run is a sequence of calls.

* `ViewOk.applyEvents` — the loop over the events of a batch keeps the invariant;
* `logsFrom_ok` — so does every run;
* `group_reuse_fails_closed` — positive credit after `correct` means an untroubled log.
-/

set_option autoImplicit false

namespace ReedCode.GroupReuse

open GroupBoundary (WorkerWithDpRank WorkerState GroupEvent GroupReuseQuery GroupBoundaryIndex
  BlockHashing ReuseBoundary Unavailable hasMamba)

variable {H : Type}

/-! ## The invariant of one worker -/

/-- A source, the worker's state in the boundary index and the log agree. -/
structure Live (source : Source) (ws : WorkerState H) (log : List Incident) : Prop where
  generation : ws.generation = source.epoch
  ordinal : ws.nextSequence = source.nextEvent
  roster : ∃ r, latestRegistration log = some r ∧ ws.specs = r.groups
  kept : .retired ∉ sinceRegister log
  clean : ws.unavailable = none → ∀ i ∈ sinceReset log, i = .accepted

/-- A worker without a source is not in the boundary index; a source that is not in the
boundary index was retired. -/
def ViewOk (log : List Incident) : Option Source → Option (WorkerState H) → Prop
  | none, none => True
  | none, some _ => False
  | some _, none => .retired ∈ sinceRegister log
  | some source, some ws => Live source ws log

variable {source : Source} {ws : WorkerState H} {log : List Incident}

/-- A failure poisons the boundary index. -/
theorem Live.fail (hl : Live source ws log) (reason : Unavailable) {i : Incident}
    (hi : i.isReset = false) (hne : i ≠ .retired) : Live source (ws.fail reason) (log ++ [i]) := by
  have hr : i.isRegistered = false := by cases i <;> simp_all [Incident.isReset, Incident.isRegistered]
  refine ⟨hl.generation, hl.ordinal, ?_, ?_, fun h => by cases h⟩
  · rw [latestRegistration_concat hr]
    exact hl.roster
  · rw [sinceRegister_append (by simpa using hr), List.mem_append, not_or]
    exact ⟨hl.kept, by simpa using hne.symm⟩

/-- An event that is no clear and that the boundary index accepted. -/
theorem Live.accept {ws' : WorkerState H} (hl : Live source ws log)
    (hun : ws.unavailable = none) (hgen : ws'.generation = ws.generation)
    (hseq : ws'.nextSequence = ws.nextSequence) (hspecs : ws'.specs = ws.specs) :
    Live source ws' (log ++ [.accepted]) := by
  refine ⟨hgen.trans hl.generation, hseq.trans hl.ordinal, ?_, ?_, fun _ => ?_⟩
  · rw [latestRegistration_concat rfl, hspecs]
    exact hl.roster
  · rw [sinceRegister_append (by simp [Incident.isRegistered])]
    simpa using hl.kept
  · rw [sinceReset_concat rfl]
    simpa [or_imp, forall_and] using hl.clean hun

/-- An accepted clear starts over. -/
theorem Live.clear (hl : Live source ws log) : Live source ws.clear (log ++ [.cleared]) := by
  refine ⟨hl.generation, hl.ordinal, ?_, ?_, fun _ => by simp⟩
  · rw [latestRegistration_concat rfl]
    exact hl.roster
  · rw [sinceRegister_append (by simp [Incident.isRegistered])]
    simpa using hl.kept

/-- A failed worker that refuses an event. -/
theorem Live.refuse (hl : Live source ws log) {reason : Unavailable}
    (hun : ws.unavailable = some reason) : Live source ws (log ++ [.rejected]) := by
  refine ⟨hl.generation, hl.ordinal, ?_, ?_, fun h => by rw [hun] at h; cases h⟩
  · rw [latestRegistration_concat rfl]
    exact hl.roster
  · rw [sinceRegister_append (by simp [Incident.isRegistered])]
    simpa using hl.kept

/-- The event ordinal and the expected sequence number advance together. -/
theorem Live.advance (hl : Live source ws log) :
    Live { source with nextEvent := source.nextEvent + 1 } ws.advance log :=
  ⟨hl.generation, by rw [GroupBoundary.advance_nextSequence, hl.ordinal], hl.roster, hl.kept,
    hl.clean⟩

/-- An event that the boundary index receives from its source. -/
theorem Live.received [DecidableEq H] {U : BlockHashing H} {maxEntries : Nat} {event : GroupEvent}
    {ws' : WorkerState H} {result : Except Unavailable Unit} (hl : Live source ws log)
    (h : ws.receive U maxEntries source.epoch source.nextEvent event = some (ws', result)) :
    Live { source with nextEvent := source.nextEvent + 1 } ws'
      (log ++ [answered event (some result)]) := by
  cases GroupBoundary.receive_cases h with
  | foreign hgen => exact absurd hl.generation hgen
  | gap _ hseq => exact absurd hl.ordinal.symm hseq
  | ownedClear => exact hl.advance.fail _ rfl (by simp [answered])
  | cleared _ _ hev =>
    subst hev
    exact hl.advance.clear
  | refused _ _ _ reason hun => exact hl.advance.refuse hun
  | failed => exact hl.advance.fail _ rfl (by simp [answered])
  | absorbed _ _ hev hun _ happ =>
    have hans : answered event (some (.ok ())) = .accepted := by
      cases event with
      | allBlocksCleared o => exact absurd rfl (hev o)
      | _ => rfl
    obtain ⟨id, g, -, rfl⟩ := GroupBoundary.apply_frame happ
    rw [hans]
    exact hl.advance.accept hun rfl rfl rfl

/-! ## One worker of the index -/

theorem ViewOk.invalidate {so : WorkerState H → WorkerState H} {sw : Option (WorkerState H)}
    (hv : ViewOk log (some source) sw) (reason : Unavailable) {i : Incident}
    (hi : i.isReset = false) (hne : i ≠ .retired)
    (hso : ∀ ws, ws.generation = source.epoch → so ws = ws.fail reason) :
    ViewOk (log ++ [i]) (some source) (sw.map so) := by
  cases sw with
  | none =>
    have hr : i.isRegistered = false := by
      cases i <;> simp_all [Incident.isReset, Incident.isRegistered]
    change Incident.retired ∈ sinceRegister (log ++ [i])
    rw [sinceRegister_append (by simpa using hr)]
    exact List.mem_append_left _ hv
  | some ws =>
    change Live source (so ws) (log ++ [i])
    rw [hso ws (Live.generation hv)]
    exact Live.fail hv reason hi hne

section Index

variable [DecidableEq H] {U : BlockHashing H} {index index' : GroupBoundaryIndex H}
  {worker w : WorkerWithDpRank} {epoch : UInt64}

omit [DecidableEq H] in
theorem get?_invalidate (reason : Unavailable) :
    (index.invalidate worker epoch reason).workers.get? w =
      if worker = w then (index.workers.get? w).map fun ws =>
        if ws.generation = epoch then ws.fail reason else ws
      else index.workers.get? w := by
  unfold GroupBoundaryIndex.invalidate
  split
  · rename_i hnone
    split
    · rename_i he
      rw [← he, hnone]; rfl
    · rfl
  · rename_i ws hsome
    split
    · rename_i hgen
      rw [FinMap.get?_insert]
      split
      · rename_i he
        rw [← he, hsome, Option.map_some, if_pos hgen]
      · rfl
    · rename_i hgen
      split
      · rename_i he
        rw [← he, hsome, Option.map_some, if_neg hgen]
      · rfl

/-- The answer of the boundary index, and what the call leaves of each worker. -/
theorem apply_view {sequence : UInt64} {event : GroupEvent} {result : Except Unavailable Unit}
    (h : index.apply U worker epoch sequence event = some (index', result)) :
    (∀ w, w ≠ worker → index'.workers.get? w = index.workers.get? w) ∧
      match index.workers.get? worker with
      | none => index'.workers.get? worker = none ∧ result = .error .noManifest
      | some ws => ∃ ws', index'.workers.get? worker = some ws' ∧
          ws.receive U index.maxAncestryEntries epoch sequence event = some (ws', result) := by
  unfold GroupBoundaryIndex.apply at h
  cases hworker : index.workers.get? worker with
  | none =>
    rw [hworker] at h
    cases h
    exact ⟨fun _ _ => rfl, hworker, rfl⟩
  | some ws =>
    simp only [hworker, Option.map_eq_some_iff, Prod.mk.injEq] at h
    obtain ⟨⟨ws', r⟩, hrec, rfl, rfl⟩ := h
    exact ⟨fun w hw => FinMap.get?_insert_ne _ _ hw.symm, ws', FinMap.get?_insert_self _ _ _, hrec⟩

end Index

/-! ## One batch -/

/-- A call about one worker leaves the others alone. -/
def SameElsewhere (worker : WorkerWithDpRank) (state state' : State H) : Prop :=
  ∀ w, w ≠ worker → state'.sources.get? w = state.sources.get? w ∧
    state'.index.workers.get? w = state.index.workers.get? w

theorem SameElsewhere.trans {worker : WorkerWithDpRank} {s₁ s₂ s₃ : State H}
    (h₁ : SameElsewhere worker s₁ s₂) (h₂ : SameElsewhere worker s₂ s₃) :
    SameElsewhere worker s₁ s₃ := fun w hw =>
  ⟨(h₂ w hw).1.trans (h₁ w hw).1, (h₂ w hw).2.trans (h₁ w hw).2⟩

/-- The source of an epoch, in agreement with the log. -/
def SourceOk (state : State H) (worker : WorkerWithDpRank) (epoch : UInt64)
    (log : List Incident) : Prop :=
  ∃ source, state.sources.get? worker = some source ∧ source.epoch = epoch ∧
    ViewOk log (some source) (state.index.workers.get? worker)

theorem sameElsewhere_invalidateIndex (state : State H) (worker : WorkerWithDpRank)
    (epoch : UInt64) (reason : Unavailable) :
    SameElsewhere worker state (state.invalidateIndex worker epoch reason) := fun w hw => by
  refine ⟨rfl, ?_⟩
  rw [State.invalidateIndex, get?_invalidate, if_neg hw.symm]

theorem SourceOk.invalidateIndex {state : State H} {worker : WorkerWithDpRank} {epoch : UInt64}
    (hs : SourceOk state worker epoch log) (reason : Unavailable) {i : Incident}
    (hi : i.isReset = false) (hne : i ≠ .retired) :
    SourceOk (state.invalidateIndex worker epoch reason) worker epoch (log ++ [i]) := by
  obtain ⟨source, hsource, he, hv⟩ := hs
  refine ⟨source, hsource, he, ?_⟩
  rw [State.invalidateIndex, get?_invalidate, if_pos rfl]
  refine hv.invalidate reason hi hne fun ws hgen => ?_
  rw [if_pos (hgen.trans he)]

variable [DecidableEq H] {D : Decoding} {U : BlockHashing H} {state state' : State H}
  {worker : WorkerWithDpRank} {epoch : UInt64}

theorem SourceOk.applyEvent {raw : Value} (hs : SourceOk state worker epoch log)
    (h : state.applyEvent D U worker epoch raw = some state') :
    SourceOk state' worker epoch (log ++ [eventIncident D U state worker epoch raw]) ∧
      SameElsewhere worker state state' := by
  unfold State.applyEvent at h
  unfold eventIncident
  cases hev : State.namedEvent D raw with
  | none =>
    rw [hev] at h
    cases h
    exact ⟨hs.invalidateIndex _ rfl (by simp), sameElsewhere_invalidateIndex _ _ _ _⟩
  | some event =>
    obtain ⟨source, hsource, rfl, hv⟩ := hs
    simp only [hev, hsource, Option.map_eq_some_iff] at h
    obtain ⟨⟨index', result⟩, happ, rfl⟩ := h
    have happ' : state.index.apply U worker source.epoch source.nextEvent event =
      some (index', result) := happ
    obtain ⟨helse, hself⟩ := apply_view happ'
    refine ⟨⟨{ source with nextEvent := source.nextEvent + 1 },
      FinMap.get?_insert_self _ _ _, rfl, ?_⟩, fun w hw =>
      ⟨FinMap.get?_insert_ne _ _ hw.symm, helse w hw⟩⟩
    simp only [hsource, Option.bind_some, happ', Option.map_some]
    cases hws : state.index.workers.get? worker with
    | none =>
      -- a retired source
      rw [hws] at hself hv
      rw [hself.1, hself.2]
      change Incident.retired ∈ sinceRegister (log ++ [.rejected])
      rw [sinceRegister_append (by simp [Incident.isRegistered])]
      exact List.mem_append_left _ hv
    | some ws =>
      rw [hws] at hself hv
      obtain ⟨ws', hws', hrec⟩ := hself
      rw [hws']
      exact Live.received hv hrec

theorem SourceOk.applyEvents : ∀ {raws : List Value} {state state' : State H}
    {log : List Incident}, SourceOk state worker epoch log →
      State.applyEvents D U worker epoch state raws = some state' →
      SourceOk state' worker epoch (log ++ eventIncidents D U worker epoch state raws) ∧
        SameElsewhere worker state state'
  | [], state, state', log, hs, h => by
    cases h
    exact ⟨by simpa [eventIncidents] using hs, fun _ _ => ⟨rfl, rfl⟩⟩
  | raw :: raws, state, state', log, hs, h => by
    rw [State.applyEvents] at h
    split at h
    · cases h
    · rename_i s₁ h₁
      obtain ⟨hs₁, he₁⟩ := hs.applyEvent h₁
      obtain ⟨hs₂, he₂⟩ := SourceOk.applyEvents hs₁ h
      refine ⟨?_, he₁.trans he₂⟩
      simp only [eventIncidents, h₁]
      rwa [List.append_cons]

omit [DecidableEq H] in
/-- The cursor of a batch that is not ignored. -/
theorem SourceOk.receiveCursor (cursor : UInt64) {source : Source}
    (hs : SourceOk state worker epoch log) (hsource : state.sources.get? worker = some source) :
    SourceOk (state.receiveCursor worker epoch cursor source) worker epoch
        (log ++ if cursor ≠ source.nextBatch then [.gap] else []) ∧
      SameElsewhere worker state (state.receiveCursor worker epoch cursor source) := by
  have hset : ∀ {s : State H} {log : List Incident}, s.sources.get? worker = some source →
      SourceOk s worker epoch log →
      SourceOk (s.setSource worker { source with nextBatch := saturatingSucc cursor }) worker epoch
        log := by
    rintro s log hsome ⟨source', hsource', he, hv⟩
    rw [hsome, Option.some.injEq] at hsource'
    subst hsource'
    refine ⟨_, FinMap.get?_insert_self _ _ _, he, ?_⟩
    change ViewOk log _ (s.index.workers.get? worker)
    cases hws : s.index.workers.get? worker with
    | none => rw [hws] at hv; exact hv
    | some ws =>
      rw [hws] at hv
      exact ⟨hv.generation, hv.ordinal, hv.roster, hv.kept, hv.clean⟩
  have helse : ∀ s : State H, SameElsewhere worker s
      (s.setSource worker { source with nextBatch := saturatingSucc cursor }) := fun s w hw =>
    ⟨FinMap.get?_insert_ne _ _ hw.symm, rfl⟩
  unfold State.receiveCursor
  split
  · exact ⟨hset hsource (hs.invalidateIndex _ rfl (by simp)),
      (sameElsewhere_invalidateIndex _ _ _ _).trans (helse _)⟩
  · rw [List.append_nil]
    exact ⟨hset hsource hs, helse _⟩

theorem SourceOk.applyBatch {cursor : UInt64} {payload : List UInt8}
    (hs : SourceOk state worker epoch log)
    (h : state.applyBatch D U worker epoch cursor payload = some state') :
    SourceOk state' worker epoch
        (log ++ batchIncidents D U state worker epoch cursor payload) ∧
      SameElsewhere worker state state' := by
  obtain ⟨source, hsource, he, -⟩ := id hs
  unfold State.applyBatch at h
  unfold batchIncidents
  simp only [hsource, ne_eq, he, not_true, if_false] at h ⊢
  split at h
  · -- an old cursor is ignored
    rename_i hold
    cases h
    rw [if_pos hold, List.append_nil]
    exact ⟨hs, fun _ _ => ⟨rfl, rfl⟩⟩
  rename_i hold
  rw [if_neg hold, ← List.append_assoc]
  obtain ⟨hs₁, he₁⟩ := hs.receiveCursor cursor hsource
  simp only [ne_eq] at hs₁
  cases hdec : D.fromSlice payload with
  | none =>
    rw [hdec] at h
    cases h
    exact ⟨hs₁.invalidateIndex _ rfl (by simp),
      he₁.trans (sameElsewhere_invalidateIndex _ _ _ _)⟩
  | some decoded =>
    obtain ⟨events, rank⟩ := decoded
    simp only [hdec] at h ⊢
    split at h
    · rename_i hrank
      cases h
      rw [if_pos hrank]
      exact ⟨hs₁.invalidateIndex _ rfl (by simp),
        he₁.trans (sameElsewhere_invalidateIndex _ _ _ _)⟩
    · rename_i hrank
      rw [if_neg hrank]
      obtain ⟨hs₂, he₂⟩ := hs₁.applyEvents h
      exact ⟨hs₂, he₁.trans he₂⟩

/-! ## Runs -/

/-- Every worker agrees with its log. -/
def StateOk (state : State H) (log : WorkerWithDpRank → List Incident) : Prop :=
  ∀ w, ViewOk (log w) (state.sources.get? w) (state.index.workers.get? w)

/-- A batch or an invalidation under an epoch that is not the worker's changes nothing. -/
theorem applyBatch_foreign {cursor : UInt64} {payload : List UInt8}
    (h : ∀ source, state.sources.get? worker = some source → source.epoch ≠ epoch) :
    state.applyBatch D U worker epoch cursor payload = some state ∧
      batchIncidents D U state worker epoch cursor payload = [] := by
  unfold State.applyBatch batchIncidents
  cases hsource : state.sources.get? worker with
  | none => exact ⟨rfl, rfl⟩
  | some source => exact ⟨if_pos (h source hsource), if_pos (h source hsource)⟩

omit [DecidableEq H] in
theorem invalidate_foreign
    (hv : ViewOk log (state.sources.get? worker) (state.index.workers.get? worker))
    (h : ∀ source, state.sources.get? worker = some source → source.epoch ≠ epoch) :
    state.invalidate worker epoch = state := by
  unfold State.invalidate State.invalidateIndex GroupBoundaryIndex.invalidate
  split
  · rfl
  · rename_i ws hws
    rw [hws] at hv
    cases hsource : state.sources.get? worker with
    | none => rw [hsource] at hv; exact hv.elim
    | some source =>
      rw [hsource] at hv
      rw [if_neg fun hgen => h source hsource (hv.generation.symm.trans hgen)]

omit [DecidableEq H] in
theorem removeWorker_view {workers : List WorkerWithDpRank} {w : WorkerWithDpRank} :
    ∀ {state : State H},
      (workers.foldl State.remove state).sources.get? w =
          (if w ∈ workers then none else state.sources.get? w) ∧
        (workers.foldl State.remove state).index.workers.get? w =
          if w ∈ workers then none else state.index.workers.get? w := by
  induction workers with
  | nil => intro state; simp
  | cons v vs ih =>
    intro state
    rw [List.foldl_cons, (@ih (state.remove v)).1, (@ih (state.remove v)).2]
    simp only [State.remove, GroupBoundaryIndex.remove, FinMap.get?_erase, List.mem_cons]
    by_cases hv : v = w
    · subst hv
      simp
    · simp [hv, Ne.symm hv]

theorem StateOk.step {log : WorkerWithDpRank → List Incident} {call : Call}
    (hs : StateOk state log) (h : step D U state call = some state') :
    StateOk state' fun w => log w ++ incidents D U state call w := by
  intro w
  cases call with
  | register worker key registration =>
    simp only [GroupReuse.step, State.register] at h
    split at h
    · cases h
    cases h
    simp only [incidents, GroupBoundaryIndex.register, FinMap.get?_insert]
    by_cases he : w = worker
    · rw [if_pos he, if_pos he.symm, if_pos he.symm]
      exact ⟨rfl, rfl, ⟨registration, by simp, rfl⟩, by simp, by simp⟩
    · rw [if_neg he, if_neg (Ne.symm he), if_neg (Ne.symm he), List.append_nil]
      exact hs w
  | applyBatch worker epoch cursor payload =>
    simp only [incidents]
    by_cases hcur : ∃ source, state.sources.get? worker = some source ∧ source.epoch = epoch
    · obtain ⟨source, hsource, he⟩ := hcur
      have hview : ViewOk (log worker) _ (state.index.workers.get? worker) := hs worker
      rw [hsource] at hview
      obtain ⟨⟨source', hsource', -, hv⟩, helse⟩ :=
        SourceOk.applyBatch ⟨source, hsource, he, hview⟩ h
      split
      · rename_i hw
        rw [hw, hsource']
        exact hv
      · rename_i hw
        rw [(helse w hw).1, (helse w hw).2, List.append_nil]
        exact hs w
    · have hforeign : ∀ source, state.sources.get? worker = some source → source.epoch ≠ epoch :=
        fun source hsource he => hcur ⟨source, hsource, he⟩
      obtain ⟨hstate, hnil⟩ := applyBatch_foreign (D := D) (U := U) hforeign
      rw [GroupReuse.step, hstate] at h
      cases h
      rw [hnil, ite_self, List.append_nil]
      exact hs w
  | invalidate worker epoch =>
    cases h
    simp only [incidents]
    by_cases hcur : ∃ source, state.sources.get? worker = some source ∧ source.epoch = epoch
    · obtain ⟨source, hsource, he⟩ := hcur
      have hview : ViewOk (log worker) _ (state.index.workers.get? worker) := hs worker
      rw [hsource] at hview
      by_cases hw : w = worker
      · obtain ⟨source', hsource', -, hv⟩ := SourceOk.invalidateIndex (i := .invalidated)
          ⟨source, hsource, he, hview⟩ .sequenceGap rfl (by simp)
        rw [if_pos ⟨hw, by rw [hsource]; simpa using he⟩, hw, State.invalidate, hsource']
        exact hv
      · obtain ⟨h₁, h₂⟩ := sameElsewhere_invalidateIndex state worker epoch .sequenceGap w hw
        rw [if_neg (fun hc => hw hc.1), List.append_nil, State.invalidate, h₁, h₂]
        exact hs w
    · have hforeign : ∀ source, state.sources.get? worker = some source → source.epoch ≠ epoch :=
        fun source hsource he => hcur ⟨source, hsource, he⟩
      rw [invalidate_foreign (hs worker) hforeign, if_neg, List.append_nil]
      · exact hs w
      · rintro ⟨-, hany⟩
        cases hsource : state.sources.get? worker with
        | none => simp [hsource] at hany
        | some source => exact hforeign source hsource (by simpa [hsource] using hany)
  | retire worker =>
    cases h
    simp only [incidents, State.retire, GroupBoundaryIndex.remove, FinMap.get?_erase]
    split
    · rename_i he
      rw [if_pos he.symm]
      cases hsource : state.sources.get? w with
      | none => trivial
      | some source =>
        change Incident.retired ∈ sinceRegister (log w ++ [.retired])
        rw [sinceRegister_append (by simp [Incident.isRegistered])]
        simp
    · rename_i he
      rw [if_neg (Ne.symm he), List.append_nil]
      exact hs w
  | remove worker =>
    cases h
    simp only [incidents, State.remove, GroupBoundaryIndex.remove, FinMap.get?_erase]
    by_cases he : w = worker
    · rw [if_pos he.symm, if_pos he.symm]
      trivial
    · rw [if_neg he, if_neg (Ne.symm he), if_neg (Ne.symm he), List.append_nil]
      exact hs w
  | removeWorker workerId =>
    cases h
    simp only [incidents, State.removeWorker]
    rw [removeWorker_view.1, removeWorker_view.2]
    by_cases hmem : w ∈ state.sources.keys.filter fun w => decide (w.workerId = workerId)
    · rw [if_pos hmem, if_pos hmem]
      trivial
    · rw [if_neg hmem, if_neg hmem]
      simp only [List.mem_filter, decide_eq_true_eq, not_and] at hmem
      split
      · rename_i hid
        have hnone := FinMap.not_mem_keys.1 fun hkey => hmem hkey hid
        have := hs w
        rw [hnone] at this ⊢
        cases hws : state.index.workers.get? w with
        | none => trivial
        | some ws => rw [hws] at this; exact this.elim
      · rw [List.append_nil]
        exact hs w

theorem logsFrom_ok : ∀ {calls : List Call} {state state' : State H}
    {log : WorkerWithDpRank → List Incident}, StateOk state log →
      Runs.run (step D U) state calls = some state' → StateOk state' (logsFrom D U state log calls)
  | [], state, state', log, hs, hr => by
    rw [Runs.run_nil, Option.some.injEq] at hr
    exact hr ▸ hs
  | call :: calls, state, state', log, hs, hr => by
    obtain ⟨s₁, h₁, h₂⟩ := (Runs.run_cons_eq_some _).1 hr
    simp only [logsFrom, h₁]
    exact logsFrom_ok (hs.step h₁) h₂

/-- In every run every worker agrees with its log. -/
theorem logs_ok {calls : List Call} (hr : Runs.run (step D U) .default calls = some state) :
    StateOk state (logs D U calls) :=
  logsFrom_ok (fun _ => trivial) hr

/-! ## Correction -/

/-- Correction never raises a device credit. -/
theorem applyDeviceBoundary_le {signals signals' : OverlapSignals} {worker w : WorkerWithDpRank}
    {blockSize : Nat} {boundary : ReuseBoundary}
    (h : applyDeviceBoundary signals worker blockSize boundary = some signals') :
    signals'.deviceCredit w ≤ signals.deviceCredit w ∧
      (0 < signals'.deviceCredit worker →
        boundary = .denseOnly ∨ ∃ e, 0 < e ∧ boundary = .available e) := by
  have hlimit : ∀ {tokens : Nat} {blocks : Nat},
      blocks = min (signals.deviceCredit worker) (tokens / blockSize) →
      signals'.device = signals.device.insert worker blocks →
      signals'.deviceCredit w ≤ signals.deviceCredit w ∧
        (0 < signals'.deviceCredit worker → 0 < tokens) := by
    intro tokens blocks hblocks hdevice
    constructor
    · unfold OverlapSignals.deviceCredit at hblocks ⊢
      rw [hdevice, FinMap.get?_insert]
      split
      · rename_i he
        subst he
        simp only [Option.getD_some]
        omega
      · exact Nat.le_refl _
    · unfold OverlapSignals.deviceCredit at hblocks ⊢
      rw [hdevice, FinMap.get?_insert_self, Option.getD_some]
      intro hpos
      have : 0 < tokens / blockSize := by omega
      exact Nat.pos_of_div_pos this
  unfold applyDeviceBoundary at h
  cases boundary with
  | denseOnly =>
    cases h
    exact ⟨Nat.le_refl _, fun _ => .inl rfl⟩
  | available tokens =>
    simp only at h
    split at h
    · cases h
    · cases h
      obtain ⟨hle, hpos⟩ := @hlimit tokens _ rfl rfl
      exact ⟨hle, fun h => .inr ⟨tokens, hpos h, rfl⟩⟩
  | unavailable reason =>
    simp only at h
    split at h
    · cases h
    · cases h
      obtain ⟨hle, hpos⟩ := @hlimit 0 _ rfl rfl
      exact ⟨hle, fun h => absurd (hpos h) (Nat.lt_irrefl 0)⟩

theorem correctSources_le {key : RoutingPartitionId} {blockSize : Nat}
    {query : Option GroupReuseQuery} {w : WorkerWithDpRank} :
    ∀ {entries : List (WorkerWithDpRank × Source)} {overlap overlap' : OverlapSignals},
      correctSources U state key blockSize query overlap entries = some overlap' →
      overlap'.deviceCredit w ≤ overlap.deviceCredit w ∧
        ∀ source, (w, source) ∈ entries → source.key = key → 0 < overlap'.deviceCredit w →
          ∃ boundary, sourceBoundary U state query w source = some boundary ∧
            (boundary = .denseOnly ∨ ∃ e, 0 < e ∧ boundary = .available e)
  | [], overlap, overlap', h => by
    cases h
    exact ⟨Nat.le_refl _, by simp⟩
  | (worker, source) :: rest, overlap, overlap', h => by
    rw [correctSources] at h
    split at h
    · rename_i hkey
      obtain ⟨hle, hrest⟩ := correctSources_le h
      refine ⟨hle, fun s hs hk hpos => ?_⟩
      rcases List.mem_cons.1 hs with he | hs
      · cases he
        exact absurd hk hkey
      · exact hrest s hs hk hpos
    split at h
    · cases h
    rename_i boundary hboundary
    split at h
    · cases h
    rename_i overlap₁ h₁
    obtain ⟨hle, hrest⟩ := correctSources_le (w := w) h
    obtain ⟨hle₁, hgrant⟩ := applyDeviceBoundary_le (w := w) h₁
    refine ⟨hle.trans hle₁, fun s hs hk hpos => ?_⟩
    rcases List.mem_cons.1 hs with he | hs
    · cases he
      exact ⟨boundary, hboundary, hgrant (Nat.lt_of_lt_of_le hpos hle)⟩
    · exact hrest s hs hk hpos

/-- Positive credit after `correct` comes from an available worker. -/
theorem correct_credit {key : RoutingPartitionId} {blockSize : Nat}
    {query : Option GroupReuseQuery} {overlap overlap' : OverlapSignals} {w : WorkerWithDpRank}
    {source : Source} (h : state.correct U key blockSize overlap query = some overlap')
    (hsource : state.sources.get? w = some source) (hkey : source.key = key)
    (hpos : 0 < overlap'.deviceCredit w) :
    ∃ ws, state.index.workers.get? w = some ws ∧ ws.generation = source.epoch ∧
      (hasMamba ws.specs = true → ws.unavailable = none) := by
  simp only [State.correct, Option.map_eq_some_iff] at h
  obtain ⟨overlap₁, h₁, h₂⟩ := h
  split at h₂
  · rw [← h₂] at hpos
    exact absurd hpos (Nat.lt_irrefl 0)
  subst h₂
  obtain ⟨boundary, hboundary, hgrant⟩ :=
    (correctSources_le h₁).2 source (FinMap.mem_entries.2 hsource) hkey hpos
  unfold sourceBoundary at hboundary
  split at hboundary
  · obtain ⟨ws, hws, hgen, -, hun⟩ := GroupBoundary.lookup_credit hboundary hgrant
    exact ⟨ws, hws, hgen, hun⟩
  · cases hboundary
    rcases hgrant with h | ⟨e, -, h⟩ <;> cases h

/-- Nothing went wrong with a worker: it was not retired since its latest registration, and
since the later of that and the latest accepted clear every incident is an accepted event. -/
structure Untroubled (log : List Incident) : Prop where
  kept : .retired ∉ sinceRegister log
  clean : ∀ i ∈ sinceReset log, i = .accepted

/-- **The index fails closed.**  In every run: positive device credit for a source whose roster
has a recurrent group means an untroubled log; a call under another epoch changes nothing; a
source that was not retired and the boundary index expect the same event. -/
theorem group_reuse_fails_closed {calls : List Call} {state : State H}
    (hr : Runs.run (step D U) .default calls = some state) :
    (∀ w source registration key blockSize overlap query overlap',
      state.sources.get? w = some source → source.key = key →
      latestRegistration (logs D U calls w) = some registration →
      hasMamba registration.groups = true →
      state.correct U key blockSize overlap query = some overlap' →
      0 < overlap'.deviceCredit w → Untroubled (logs D U calls w)) ∧
    (∀ w epoch cursor payload,
      (∀ source, state.sources.get? w = some source → source.epoch ≠ epoch) →
      state.applyBatch D U w epoch cursor payload = some state ∧
        state.invalidate w epoch = state) ∧
    (∀ w source, state.sources.get? w = some source →
      .retired ∉ sinceRegister (logs D U calls w) →
      ∃ ws, state.index.workers.get? w = some ws ∧ ws.generation = source.epoch ∧
        source.nextEvent = ws.nextSequence) := by
  have hok := logs_ok hr
  refine ⟨?_, ?_, ?_⟩
  · intro w source registration key blockSize overlap query overlap' hsource hkey hreg hm hc hpos
    obtain ⟨ws, hws, -, hun⟩ := correct_credit hc hsource hkey hpos
    have hview := hok w
    rw [hsource, hws] at hview
    obtain ⟨-, -, ⟨r, hr', hspecs⟩, hkept, hclean⟩ := hview
    rw [hreg, Option.some.injEq] at hr'
    subst hr'
    exact ⟨hkept, hclean (hun (hspecs ▸ hm))⟩
  · intro w epoch cursor payload hforeign
    exact ⟨(applyBatch_foreign hforeign).1, invalidate_foreign (hok w) hforeign⟩
  · intro w source hsource hkept
    have hview := hok w
    rw [hsource] at hview
    cases hws : state.index.workers.get? w with
    | none => rw [hws] at hview; exact absurd hview hkept
    | some ws =>
      rw [hws] at hview
      exact ⟨ws, rfl, hview.generation, hview.ordinal.symm⟩

/-- A MessagePack batch: timestamp zero, one event that stores block 1 of group 0, no rank. -/
def storeBatch : List UInt8 :=
  [147, 203, 0, 0, 0, 0, 0, 0, 0, 0, 145, 133, 164, 116, 121, 112, 101, 171, 66, 108, 111, 99, 107,
    83, 116, 111, 114, 101, 100, 169, 103, 114, 111, 117, 112, 95, 105, 100, 120, 0, 172, 98, 108,
    111, 99, 107, 95, 104, 97, 115, 104, 101, 115, 145, 1, 169, 116, 111, 107, 101, 110, 95, 105,
    100, 115, 146, 1, 2, 170, 98, 108, 111, 99, 107, 95, 115, 105, 122, 101, 2, 192]

def storeValue : Value :=
  .dict [("type", .str "BlockStored"), ("group_idx", .int 0), ("block_hashes", .list [.int 1]),
    ("token_ids", .list [.int 1, .int 2]), ("block_size", .int 2)]

/-- The decoders on that batch. -/
def storeDecoding : Decoding where
  fromSlice payload := if payload = storeBatch then some ([storeValue], none) else none
  fromValue raw :=
    if raw = storeValue then some (GroupBoundary.plainStore 0 2 [1] [1, 2]) else none

def storeCalls : List Call :=
  [.register ⟨7, 0⟩ ⟨"model", "default"⟩ ⟨1, "9d32136b-84c4-4ddf-9ce4-f4a6813f1b64", 2,
      "vllm_44488_v1", [⟨0, .mamba, 2, none⟩]⟩,
    .applyBatch ⟨7, 0⟩ 1 0 storeBatch]

theorem group_reuse_fails_closed_storeCalls : ∃ state overlap ws,
    Runs.run (step storeDecoding GroupBoundary.plainHashing) .default storeCalls = some state ∧
    state.correct GroupBoundary.plainHashing ⟨"model", "default"⟩ 2
      { OverlapSignals.default with device := .ofList [(⟨7, 0⟩, 4)] }
      (some ⟨none, some [1, 2, 3], ⟨none, none⟩, .ordinary⟩) = some overlap ∧
    overlap.deviceCredit ⟨7, 0⟩ = 1 ∧
    Untroubled (logs storeDecoding GroupBoundary.plainHashing storeCalls ⟨7, 0⟩) ∧
    state.applyBatch storeDecoding GroupBoundary.plainHashing ⟨7, 0⟩ 9 1 storeBatch = some state ∧
    state.index.workers.get? ⟨7, 0⟩ = some ws ∧ ws.nextSequence = 1 := by
  obtain ⟨state, hr, source, hsource, hkey, hepoch, hnext, overlap, hc, hcredit⟩ : ∃ state,
      Runs.run (step storeDecoding GroupBoundary.plainHashing) .default storeCalls = some state ∧
      ∃ source, state.sources.get? ⟨7, 0⟩ = some source ∧ source.key = ⟨"model", "default"⟩ ∧
        source.epoch = 1 ∧ source.nextEvent = 1 ∧
        ∃ overlap, state.correct GroupBoundary.plainHashing ⟨"model", "default"⟩ 2
          { OverlapSignals.default with device := .ofList [(⟨7, 0⟩, 4)] }
          (some ⟨none, some [1, 2, 3], ⟨none, none⟩, .ordinary⟩) = some overlap ∧
        overlap.deviceCredit ⟨7, 0⟩ = 1 :=
    ⟨_, rfl, _, rfl, rfl, rfl, rfl, _, rfl, by decide⟩
  obtain ⟨hcredited, hforeign, hordinal⟩ := group_reuse_fails_closed hr
  have hclean : Untroubled _ := hcredited _ _ _ _ _ _ _ _ hsource hkey rfl (by decide) hc
    (by rw [hcredit]; exact Nat.one_pos)
  obtain ⟨ws, hws, -, hseq⟩ := hordinal _ _ hsource hclean.kept
  refine ⟨state, overlap, ws, hr, hc, hcredit, hclean, (hforeign _ _ _ _ ?_).1, hws, ?_⟩
  · intro s hs
    rw [hsource, Option.some.injEq] at hs
    rw [← hs, hepoch]
    decide
  · rw [← hseq, hnext]

end ReedCode.GroupReuse
