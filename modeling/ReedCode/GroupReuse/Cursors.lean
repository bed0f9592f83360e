import ReedCode.GroupReuse.FailClosed

/-!
# Batch cursors

Every batch of an epoch is consumed at most once, by its cursor.

* `Consumed` — the source of a worker is past a cursor, in one of its epochs;
* `Consumed.step` — no call takes a source back below a cursor of its epoch;
* `firstTimes` — the deliveries that are new when they arrive, by cursor;
* `consumed_once` — consumed batches change nothing, and a delivery sequence acts as its
  first-time deliveries; the largest cursor is the exception, which a saturated `next_batch`
  does not remember.
-/

set_option autoImplicit false

namespace ReedCode.GroupReuse

open GroupBoundary (WorkerWithDpRank GroupSpec GroupEvent GroupBoundaryIndex BlockHashing
  Unavailable)

variable {H : Type}

/-! ## Cursors -/

/-- `u64::MAX`. -/
def largestCursor : UInt64 := UInt64.ofNat (2 ^ 64 - 1)

theorem lt_saturatingSucc {cursor cursor' : UInt64} (hle : cursor' ≤ cursor)
    (hne : cursor' ≠ largestCursor) : cursor' < saturatingSucc cursor := by
  have hmax : cursor'.toNat ≠ 2 ^ 64 - 1 := fun h => hne (UInt64.toNat_inj.1 (by rw [h]; rfl))
  have hlt := cursor'.toNat_lt
  unfold saturatingSucc
  rw [UInt64.le_iff_toNat_le] at hle
  split
  · rename_i hzero
    have hzero' := congrArg UInt64.toNat hzero
    rw [UInt64.toNat_add] at hzero'
    rw [UInt64.lt_iff_toNat_lt]
    have hcursor := cursor.toNat_lt
    simp only [UInt64.toNat_one, UInt64.toNat_zero] at hzero'
    omega
  · rename_i hzero
    have hsucc : (cursor + 1).toNat = cursor.toNat + 1 := by
      have hcursor := cursor.toNat_lt
      have hne : cursor.toNat ≠ 2 ^ 64 - 1 := fun h => hzero (UInt64.toNat_inj.1 (by
        rw [UInt64.toNat_add, h]
        rfl))
      rw [UInt64.toNat_add, UInt64.toNat_one]
      omega
    rw [UInt64.lt_iff_toNat_lt, hsucc]
    omega

theorem eq_largestCursor {cursor : UInt64} (h : largestCursor ≤ cursor) :
    cursor = largestCursor := by
  have hlt := cursor.toNat_lt
  have hmax : largestCursor.toNat = 2 ^ 64 - 1 := rfl
  rw [UInt64.le_iff_toNat_le, hmax] at h
  exact UInt64.toNat_inj.1 (by rw [hmax]; omega)

theorem le_saturatingSucc (cursor : UInt64) : cursor ≤ saturatingSucc cursor := by
  by_cases h : cursor = largestCursor
  · rw [h]
    decide
  · exact UInt64.le_of_lt (lt_saturatingSucc (UInt64.le_refl cursor) h)

/-! ## What a batch does to the sources -/

/-- The source of the worker moves its event ordinal only; the others stay. -/
structure SameBatch (worker : WorkerWithDpRank) (source : Source) (s s' : State H) : Prop where
  nextEpoch : s'.nextEpoch = s.nextEpoch
  others : ∀ w, w ≠ worker → s'.sources.get? w = s.sources.get? w
  own : ∃ source', s'.sources.get? worker = some source' ∧ source'.epoch = source.epoch ∧
    source'.nextBatch = source.nextBatch

variable {D : Decoding} {U : BlockHashing H} {worker : WorkerWithDpRank} {epoch cursor : UInt64}

section

variable [DecidableEq H]

theorem sameBatch_applyEvents : ∀ {raws : List Value} {s s' : State H} {source : Source},
    s.sources.get? worker = some source → s.applyEvents D U worker epoch raws = some s' →
      SameBatch worker source s s'
  | [], s, s', source, hsource, h => by
    cases h
    exact ⟨rfl, fun _ _ => rfl, source, hsource, rfl, rfl⟩
  | raw :: raws, s, s', source, hsource, h => by
    unfold State.applyEvents at h
    split at h
    · cases h
    rename_i s₁ h₁
    obtain ⟨source₁, hsource₁, hepoch, hbatch, hnext, hothers⟩ : ∃ source₁,
        s₁.sources.get? worker = some source₁ ∧ source₁.epoch = source.epoch ∧
        source₁.nextBatch = source.nextBatch ∧ s₁.nextEpoch = s.nextEpoch ∧
        ∀ w, w ≠ worker → s₁.sources.get? w = s.sources.get? w := by
      unfold State.applyEvent at h₁
      split at h₁
      · cases h₁
        exact ⟨source, hsource, rfl, rfl, rfl, fun _ _ => rfl⟩
      · rw [hsource] at h₁
        obtain ⟨r, -, rfl⟩ := Option.map_eq_some_iff.1 h₁
        refine ⟨_, FinMap.get?_insert_self _ _ _, rfl, rfl, rfl, fun w hw => ?_⟩
        exact FinMap.get?_insert_ne _ _ (Ne.symm hw)
    have hrest := sameBatch_applyEvents hsource₁ h
    obtain ⟨source', hsource', hepoch', hbatch'⟩ := hrest.own
    exact ⟨hrest.nextEpoch.trans hnext, fun w hw => (hrest.others w hw).trans (hothers w hw),
      source', hsource', hepoch'.trans hepoch, hbatch'.trans hbatch⟩

/-- **The outcomes of a batch**: it is ignored, or the cursor of its source moves past it. -/
inductive Delivered (D : Decoding) (U : BlockHashing H) (worker : WorkerWithDpRank)
    (epoch cursor : UInt64) (s : State H) : State H → Prop
  | ignored (h : ∀ source, s.sources.get? worker = some source → source.epoch = epoch →
      cursor < source.nextBatch) : Delivered D U worker epoch cursor s s
  | processed {s' : State H} {source : Source} (hsource : s.sources.get? worker = some source)
      (hepoch : source.epoch = epoch) (hnew : source.nextBatch ≤ cursor)
      (hs : SameBatch worker { source with nextBatch := saturatingSucc cursor } s s') :
      Delivered D U worker epoch cursor s s'

theorem delivered {payload : List UInt8} {s s' : State H}
    (h : s.applyBatch D U worker epoch cursor payload = some s') :
    Delivered D U worker epoch cursor s s' := by
  unfold State.applyBatch at h
  split at h
  · rename_i hnone
    cases h
    exact .ignored fun source hsource => by
      rw [hnone] at hsource
      cases hsource
  rename_i source hsource
  split at h
  · rename_i hforeign
    cases h
    refine .ignored fun source' hsource' hepoch => ?_
    rw [hsource] at hsource'
    cases hsource'
    exact absurd hepoch hforeign
  rename_i hepoch
  rw [not_not] at hepoch
  split at h
  · rename_i hstale
    cases h
    refine .ignored fun source' hsource' _ => ?_
    rw [hsource] at hsource'
    cases hsource'
    exact hstale
  rename_i hnew
  have hcursor : (s.receiveCursor worker epoch cursor source).sources =
      s.sources.insert worker { source with nextBatch := saturatingSucc cursor } := by
    unfold State.receiveCursor State.setSource State.invalidateIndex
    simp only
    split <;> rfl
  have hnext : (s.receiveCursor worker epoch cursor source).nextEpoch = s.nextEpoch := by
    unfold State.receiveCursor State.setSource State.invalidateIndex
    simp only
    split <;> rfl
  have hown : (s.receiveCursor worker epoch cursor source).sources.get? worker =
      some { source with nextBatch := saturatingSucc cursor } := by
    rw [hcursor, FinMap.get?_insert_self]
  have hothers : ∀ w, w ≠ worker →
      (s.receiveCursor worker epoch cursor source).sources.get? w = s.sources.get? w := by
    intro w hw
    rw [hcursor, FinMap.get?_insert_ne _ _ (Ne.symm hw)]
  refine .processed hsource hepoch (UInt64.not_lt.1 hnew) ?_
  simp only at h
  split at h
  · cases h
    exact ⟨hnext, hothers, _, hown, rfl, rfl⟩
  · split at h
    · cases h
      exact ⟨hnext, hothers, _, hown, rfl, rfl⟩
    · have hsame := sameBatch_applyEvents hown h
      exact ⟨hsame.nextEpoch.trans hnext, fun w hw => (hsame.others w hw).trans (hothers w hw),
        hsame.own⟩

end

/-! ## Consumed cursors -/

/-- While the worker is in that epoch, its source is past the cursor. -/
def Consumed (s : State H) (worker : WorkerWithDpRank) (epoch cursor : UInt64) : Prop :=
  ∀ source, s.sources.get? worker = some source → source.epoch = epoch →
    cursor < source.nextBatch

section

variable [DecidableEq H] {s s' : State H}

/-- A consumed batch changes nothing. -/
theorem Consumed.ignored (h : Consumed s worker epoch cursor) (payload : List UInt8) :
    s.applyBatch D U worker epoch cursor payload = some s := by
  unfold State.applyBatch
  split
  · rfl
  · rename_i source hsource
    split
    · rfl
    · rename_i hepoch
      rw [if_pos (h source hsource (not_not.1 hepoch))]

omit [DecidableEq H] in
/-- Once a batch has been delivered, its cursor and all below it are consumed. -/
theorem consumed_of_delivered (h : Delivered D U worker epoch cursor s s') {cursor' : UInt64}
    (hle : cursor' ≤ cursor) (hne : cursor' ≠ largestCursor) :
    Consumed s' worker epoch cursor' := by
  cases h with
  | ignored hstale =>
    exact fun source hsource hepoch => UInt64.lt_of_le_of_lt hle (hstale source hsource hepoch)
  | processed hsource hepoch hnew hs =>
    obtain ⟨source', hsource', -, hbatch⟩ := hs.own
    intro source₁ hsource₁ _
    rw [hsource'] at hsource₁
    cases hsource₁
    rw [hbatch]
    exact lt_saturatingSucc hle hne

omit [DecidableEq H] in
/-- A delivery, of any batch, keeps what is consumed. -/
theorem Consumed.deliver {worker' : WorkerWithDpRank} {epoch' cursor' : UInt64}
    (h : Consumed s worker epoch cursor) (hd : Delivered D U worker' epoch' cursor' s s') :
    Consumed s' worker epoch cursor := by
  cases hd with
  | ignored => exact h
  | processed hsource hepoch hnew hs =>
    rename_i source
    intro source₁ hsource₁ hepoch₁
    by_cases hw : worker = worker'
    · subst hw
      obtain ⟨source', hsource', hsame, hbatch⟩ := hs.own
      rw [hsource'] at hsource₁
      cases hsource₁
      rw [hbatch]
      have hold := h source hsource (hsame.symm.trans hepoch₁)
      exact UInt64.lt_of_lt_of_le hold (UInt64.le_trans hnew (le_saturatingSucc cursor'))
    · rw [hs.others worker hw] at hsource₁
      exact h source₁ hsource₁ hepoch₁

/-- No source is ahead of the epochs handed out. -/
def EpochsOk (s : State H) : Prop :=
  ∀ w source, s.sources.get? w = some source → source.epoch ≤ s.nextEpoch

omit [DecidableEq H] in
theorem EpochsOk.of_sources (h : EpochsOk s) (hnext : s'.nextEpoch = s.nextEpoch)
    (hs : ∀ w source, s'.sources.get? w = some source → s.sources.get? w = some source) :
    EpochsOk s' := fun w source hw => hnext ▸ h w source (hs w source hw)

omit [DecidableEq H] in
theorem Delivered.nextEpoch (h : Delivered D U worker epoch cursor s s') :
    s'.nextEpoch = s.nextEpoch := by
  cases h with
  | ignored => rfl
  | processed _ _ _ hs => exact hs.nextEpoch

omit [DecidableEq H] in
theorem EpochsOk.deliver (h : EpochsOk s) (hd : Delivered D U worker epoch cursor s s') :
    EpochsOk s' := by
  intro w source hw
  rw [hd.nextEpoch]
  cases hd with
  | ignored => exact h w source hw
  | processed hsource hepoch hnew hs =>
    by_cases he : w = worker
    · subst he
      rename_i source₀
      obtain ⟨source', hsource', hsame, -⟩ := hs.own
      rw [hsource'] at hw
      cases hw
      have hold : source₀.epoch ≤ s.nextEpoch := h w source₀ hsource
      exact UInt64.le_trans (UInt64.le_of_eq hsame) hold
    · rw [hs.others w he] at hw
      exact h w source hw

omit [DecidableEq H] in
theorem get?_removeAll : ∀ (workers : List WorkerWithDpRank) (s : State H),
    (workers.foldl State.remove s).nextEpoch = s.nextEpoch ∧ ∀ w source,
      (workers.foldl State.remove s).sources.get? w = some source →
        s.sources.get? w = some source
  | [], _ => ⟨rfl, fun _ _ h => h⟩
  | worker :: workers, s => by
    obtain ⟨hnext, hsub⟩ := get?_removeAll workers (s.remove worker)
    refine ⟨hnext, fun w source h => ?_⟩
    have hremoved := hsub w source h
    simp only [State.remove, FinMap.get?_erase] at hremoved
    split at hremoved
    · cases hremoved
    · exact hremoved

/-- Every call but a registration and a batch only drops sources. -/
theorem sources_of_call {call : Call} (h : step D U s call = some s')
    (hregister : ∀ w key registration, call ≠ .register w key registration)
    (hbatch : ∀ w e c payload, call ≠ .applyBatch w e c payload) :
    s'.nextEpoch = s.nextEpoch ∧
      ∀ w source, s'.sources.get? w = some source → s.sources.get? w = some source := by
  cases call with
  | register w key registration => exact absurd rfl (hregister w key registration)
  | applyBatch w e c payload => exact absurd rfl (hbatch w e c payload)
  | invalidate w e =>
    cases h
    exact ⟨rfl, fun _ _ h => h⟩
  | retire w =>
    cases h
    exact ⟨rfl, fun _ _ h => h⟩
  | remove w =>
    cases h
    exact get?_removeAll [w] s
  | removeWorker workerId =>
    cases h
    exact get?_removeAll _ s

omit [DecidableEq H] in
theorem register_eq_some {w : WorkerWithDpRank} {key : RoutingPartitionId}
    {registration : GroupReuseRegistration} (h : s.register w key registration = some s') :
    s.nextEpoch < s'.nextEpoch ∧
      s'.sources = s.sources.insert w ⟨key, s'.nextEpoch, 0, 0⟩ := by
  unfold State.register at h
  split at h
  · cases h
  rename_i hzero
  cases h
  refine ⟨?_, rfl⟩
  have hnext := s.nextEpoch.toNat_lt
  have hne : s.nextEpoch.toNat ≠ 2 ^ 64 - 1 := fun h => hzero (UInt64.toNat_inj.1 (by
    rw [UInt64.toNat_add, h]
    rfl))
  rw [UInt64.lt_iff_toNat_lt, UInt64.toNat_add, UInt64.toNat_one]
  omega

theorem EpochsOk.step {call : Call} (h : EpochsOk s) (hs : step D U s call = some s') :
    EpochsOk s' ∧ s.nextEpoch ≤ s'.nextEpoch := by
  cases call with
  | register w key registration =>
    obtain ⟨hlt, hsources⟩ := register_eq_some hs
    refine ⟨fun w' source hw' => ?_, UInt64.le_of_lt hlt⟩
    rw [hsources, FinMap.get?_insert] at hw'
    split at hw'
    · cases hw'
      exact UInt64.le_refl _
    · exact UInt64.le_trans (h w' source hw') (UInt64.le_of_lt hlt)
  | applyBatch w e c payload =>
    have hd : Delivered D U w e c s s' := delivered hs
    exact ⟨h.deliver hd, UInt64.le_of_eq hd.nextEpoch.symm⟩
  | _ =>
    obtain ⟨hnext, hsub⟩ := sources_of_call hs (fun _ _ _ h => (by cases h))
      fun _ _ _ _ h => (by cases h)
    exact ⟨h.of_sources hnext hsub, UInt64.le_of_eq hnext.symm⟩

/-- **No call takes a source back**: a later registration has a later epoch. -/
theorem Consumed.step {call : Call} (h : Consumed s worker epoch cursor)
    (hepoch : epoch ≤ s.nextEpoch) (hs : step D U s call = some s') :
    Consumed s' worker epoch cursor := by
  cases call with
  | register w key registration =>
    obtain ⟨hlt, hsources⟩ := register_eq_some hs
    intro source hsource hsame
    rw [hsources, FinMap.get?_insert] at hsource
    split at hsource
    · -- the new source is in a new epoch
      cases hsource
      have hle : s'.nextEpoch ≤ s.nextEpoch := UInt64.le_trans (UInt64.le_of_eq hsame) hepoch
      exact absurd hlt (UInt64.not_lt.2 hle)
    · exact h source hsource hsame
  | applyBatch w e c payload => exact h.deliver (delivered hs)
  | _ =>
    obtain ⟨hnext, hsub⟩ := sources_of_call hs (fun _ _ _ h => (by cases h))
      fun _ _ _ _ h => (by cases h)
    exact fun source hw => h source (hsub worker source hw)

theorem epochsOk_run {calls : List Call} (h : EpochsOk s)
    (hr : Runs.run (GroupReuse.step D U) s calls = some s') : EpochsOk s' :=
  Runs.run_induction (fun _ _ _ hok hs => (EpochsOk.step hok hs).1) h hr

theorem Consumed.run : ∀ {calls : List Call} {s s' : State H}, EpochsOk s →
    epoch ≤ s.nextEpoch → Consumed s worker epoch cursor →
      Runs.run (GroupReuse.step D U) s calls = some s' → Consumed s' worker epoch cursor
  | [], s, s', _, _, h, hr => by
    rw [Runs.run_nil, Option.some.injEq] at hr
    exact hr ▸ h
  | call :: calls, s, s', hok, hepoch, h, hr => by
    obtain ⟨s₁, h₁, h₂⟩ := (Runs.run_cons_eq_some _).1 hr
    obtain ⟨hok₁, hnext⟩ := hok.step h₁
    exact Consumed.run hok₁ (UInt64.le_trans hepoch hnext) (h.step hepoch h₁) h₂

end

/-! ## Delivery sequences -/

/-- One delivered batch. -/
structure Delivery where
  worker : WorkerWithDpRank
  epoch : UInt64
  cursor : UInt64
  payload : List UInt8

/-- The batch comes to the same epoch of the same worker. -/
def Delivery.SameStream (d d' : Delivery) : Prop := d.worker = d'.worker ∧ d.epoch = d'.epoch

instance (d d' : Delivery) : Decidable (d.SameStream d') := inferInstanceAs (Decidable (_ ∧ _))

/-- The deliveries whose cursor is above every earlier one of their stream. -/
def firstTimesFrom : List Delivery → List Delivery → List Delivery
  | _, [] => []
  | earlier, d :: ds =>
    if earlier.any fun e => decide (e.SameStream d ∧ d.cursor ≤ e.cursor) then
      firstTimesFrom earlier ds
    else d :: firstTimesFrom (d :: earlier) ds

/-- The strictly increasing first-time deliveries of every stream. -/
def firstTimes (ds : List Delivery) : List Delivery := firstTimesFrom [] ds

/-- No stream gets the largest cursor twice. -/
def LargestOnce (ds : List Delivery) : Prop :=
  ds.Pairwise fun d d' => d.SameStream d' → d'.cursor = largestCursor → d.cursor ≠ largestCursor

def deliver [DecidableEq H] (D : Decoding) (U : BlockHashing H) (s : State H) (d : Delivery) :
    Option (State H) :=
  s.applyBatch D U d.worker d.epoch d.cursor d.payload

variable [DecidableEq H]

/-- **A delivery sequence acts as its first-time deliveries.** -/
theorem run_firstTimesFrom : ∀ (ds earlier : List Delivery) (s : State H), LargestOnce ds →
    (∀ e ∈ earlier, ∀ d ∈ ds, e.SameStream d → d.cursor = largestCursor →
      e.cursor ≠ largestCursor) →
    (∀ e ∈ earlier, ∀ cursor, cursor ≤ e.cursor → cursor ≠ largestCursor →
      Consumed s e.worker e.epoch cursor) →
    Runs.run (deliver D U) s ds = Runs.run (deliver D U) s (firstTimesFrom earlier ds)
  | [], _, _, _, _, _ => rfl
  | d :: ds, earlier, s, honce, hearlier, hconsumed => by
    obtain ⟨hd, hds⟩ := List.pairwise_cons.1 honce
    have hrest : ∀ e ∈ earlier, ∀ d' ∈ ds, e.SameStream d' → d'.cursor = largestCursor →
        e.cursor ≠ largestCursor := fun e he d' hd' => hearlier e he d' (List.mem_cons_of_mem _ hd')
    unfold firstTimesFrom
    split
    · rename_i hstale
      obtain ⟨e, he, hsame⟩ := List.any_eq_true.1 hstale
      obtain ⟨hstream, hle⟩ := of_decide_eq_true hsame
      have hne : d.cursor ≠ largestCursor := by
        intro hmax
        exact hearlier e he d List.mem_cons_self hstream hmax (eq_largestCursor (hmax ▸ hle))
      have hsame : deliver D U s d = some s := by
        have hc := hconsumed e he d.cursor hle hne
        rw [hstream.1, hstream.2] at hc
        exact hc.ignored d.payload
      simp only [Runs.run, hsame]
      exact run_firstTimesFrom ds earlier s hds hrest hconsumed
    · simp only [Runs.run]
      cases hdeliver : deliver D U s d with
      | none => rfl
      | some s₁ =>
        have hd₁ : Delivered D U d.worker d.epoch d.cursor s s₁ := delivered hdeliver
        refine run_firstTimesFrom ds (d :: earlier) s₁ hds (fun e he d' hd' => ?_)
          fun e he cursor hle hne => ?_
        · rcases List.mem_cons.1 he with rfl | he
          · exact hd d' hd'
          · exact hrest e he d' hd'
        · rcases List.mem_cons.1 he with rfl | he
          · exact consumed_of_delivered hd₁ hle hne
          · exact (hconsumed e he cursor hle hne).deliver hd₁

omit [DecidableEq H] in
/-- The first-time deliveries are a subsequence, increasing along every stream. -/
theorem firstTimesFrom_increasing : ∀ (ds earlier : List Delivery),
    (firstTimesFrom earlier ds).Sublist ds ∧
    (firstTimesFrom earlier ds).Pairwise (fun d d' => d.SameStream d' → d.cursor < d'.cursor) ∧
    ∀ e ∈ earlier, ∀ d ∈ firstTimesFrom earlier ds, e.SameStream d → e.cursor < d.cursor
  | [], _ => ⟨List.Sublist.refl _, .nil, fun _ _ _ h => by cases h⟩
  | d :: ds, earlier => by
    unfold firstTimesFrom
    split
    · obtain ⟨hsub, hpair, hearlier⟩ := firstTimesFrom_increasing ds earlier
      exact ⟨hsub.cons d, hpair, hearlier⟩
    · rename_i hnew
      obtain ⟨hsub, hpair, hearlier⟩ := firstTimesFrom_increasing ds (d :: earlier)
      refine ⟨hsub.cons_cons d, List.pairwise_cons.2 ⟨hearlier d List.mem_cons_self, hpair⟩,
        fun e he d' hd' hstream => ?_⟩
      rcases List.mem_cons.1 hd' with rfl | hd'
      · refine UInt64.not_le.1 fun hle => hnew (List.any_eq_true.2 ⟨e, he, ?_⟩)
        exact decide_eq_true ⟨hstream, hle⟩
      · exact hearlier e (List.mem_cons_of_mem _ he) d' hd' hstream

/-- **Each batch cursor is consumed at most once**, short of the largest: whatever happens
after a batch, replays at or below its cursor change nothing while the epoch lasts; and a
delivery sequence acts as its first-time deliveries. -/
theorem consumed_once (D : Decoding) (U : BlockHashing H) {calls : List Call} {s : State H}
    (hr : Runs.run (step D U) .default calls = some s) :
    (∀ worker source cursor payload s₁ calls' s₂ cursor' payload',
      s.sources.get? worker = some source →
      s.applyBatch D U worker source.epoch cursor payload = some s₁ →
      Runs.run (step D U) s₁ calls' = some s₂ → cursor' ≤ cursor → cursor' ≠ largestCursor →
        s₂.applyBatch D U worker source.epoch cursor' payload' = some s₂) ∧
    ∀ ds, LargestOnce ds →
      (firstTimes ds).Sublist ds ∧
      (firstTimes ds).Pairwise (fun d d' => d.SameStream d' → d.cursor < d'.cursor) ∧
      Runs.run (deliver D U) s ds = Runs.run (deliver D U) s (firstTimes ds) := by
  have hdefault : EpochsOk (State.default : State H) := fun _ _ h => by cases h
  have hok := epochsOk_run hdefault hr
  constructor
  · intro worker source cursor payload s₁ calls' s₂ cursor' payload' hsource hbatch hr' hle hne
    have hd : Delivered D U worker source.epoch cursor s s₁ := delivered hbatch
    have hepoch : source.epoch ≤ s₁.nextEpoch := by
      rw [hd.nextEpoch]
      exact hok worker source hsource
    have hconsumed := Consumed.run (hok.deliver hd) hepoch (consumed_of_delivered hd hle hne) hr'
    exact hconsumed.ignored payload'
  · intro ds honce
    obtain ⟨hsub, hpair, -⟩ := firstTimesFrom_increasing ds []
    exact ⟨hsub, hpair, run_firstTimesFrom ds [] s honce (fun _ h => by cases h)
      fun _ h => by cases h⟩

/-- A worker that has just been registered. -/
def registerCalls : List Call :=
  [.register ⟨7, 0⟩ ⟨"model", "default"⟩ ⟨1, "9d32136b-84c4-4ddf-9ce4-f4a6813f1b64", 2,
      "vllm_44488_v1", [⟨0, .mamba, 2, none⟩]⟩]

/-- The first batch of a stream, replayed. -/
theorem consumed_once_registerCalls : ∃ (s s₁ : State (List UInt32)),
    Runs.run (step storeDecoding GroupBoundary.plainHashing) .default registerCalls = some s ∧
    s.applyBatch storeDecoding GroupBoundary.plainHashing ⟨7, 0⟩ 1 0 storeBatch = some s₁ ∧
    s₁.applyBatch storeDecoding GroupBoundary.plainHashing ⟨7, 0⟩ 1 0 [] = some s₁ := by
  obtain ⟨s, hr, source, hsource, hepoch, s₁, hbatch⟩ : ∃ s : State (List UInt32),
      Runs.run (step storeDecoding GroupBoundary.plainHashing) .default registerCalls = some s ∧
      ∃ source, s.sources.get? ⟨7, 0⟩ = some source ∧ source.epoch = 1 ∧ ∃ s₁,
        s.applyBatch storeDecoding GroupBoundary.plainHashing ⟨7, 0⟩ 1 0 storeBatch = some s₁ :=
    ⟨_, rfl, _, rfl, rfl, _, rfl⟩
  refine ⟨s, s₁, hr, hbatch, ?_⟩
  have hreplays := (consumed_once storeDecoding GroupBoundary.plainHashing hr).1
  have hreplay := hreplays ⟨7, 0⟩ source 0 storeBatch s₁ [] s₁ 0 [] hsource (hepoch ▸ hbatch) rfl
    (UInt64.le_refl 0) (by decide)
  rwa [hepoch] at hreplay

/-- A batch with the largest cursor is processed again each time it is delivered. -/
theorem largest_cursor_replayed : ∃ (s s₁ s₂ : State (List UInt32)),
    Runs.run (step storeDecoding GroupBoundary.plainHashing) .default registerCalls = some s ∧
    s.applyBatch storeDecoding GroupBoundary.plainHashing ⟨7, 0⟩ 1 largestCursor storeBatch =
      some s₁ ∧
    s₁.applyBatch storeDecoding GroupBoundary.plainHashing ⟨7, 0⟩ 1 largestCursor storeBatch =
      some s₂ ∧
    (s₁.sources.get? ⟨7, 0⟩).map Source.nextEvent = some 1 ∧
    (s₂.sources.get? ⟨7, 0⟩).map Source.nextEvent = some 2 :=
  ⟨_, _, _, rfl, rfl, rfl, by decide, by decide⟩

end ReedCode.GroupReuse
