import ReedCode.CarrierFeed.Replica

/-!
# Losing and regaining the feed

What a replica answers while it has lost its place in the feed.

* `Performed` says once what a call can do; `performed` — every call does one of these;
* `resync_safe` — a call that meets a gap, another epoch or an incomplete tail silences the
  replica until a snapshot is installed, and a known manifest stays known until a snapshot
  that omits it is installed.
-/

set_option autoImplicit false

namespace ReedCode.CarrierFeed

open CarrierFeedReplica

variable {K F H P I R E : Type} [DecidableEq K] [DecidableEq F] {U : Upstream K F H P I R E}

/-! ## Calls -/

inductive Call (K F H P : Type) where
  | apply (frame : CarrierFeedFrame K F H P)
  | installSnapshot (snapshot : CarrierFeedSnapshot K F H P)

/-- The replica after a call. -/
def perform (U : Upstream K F H P I R E) (replica : CarrierFeedReplica K F H P I) :
    Call K F H P → CarrierFeedReplica K F H P I
  | .apply frame => (replica.apply U frame).1
  | .installSnapshot snapshot => (replica.installSnapshot U snapshot).1

/-- Calls as steps of a system; no call aborts. -/
def step (U : Upstream K F H P I R E) (replica : CarrierFeedReplica K F H P I)
    (call : Call K F H P) : Option (CarrierFeedReplica K F H P I) :=
  some (perform U replica call)

/-- The call installs the snapshot and answers `Applied`. -/
def Installs (U : Upstream K F H P I R E) (replica : CarrierFeedReplica K F H P I)
    (call : Call K F H P) (snapshot : CarrierFeedSnapshot K F H P) : Prop :=
  call = .installSnapshot snapshot ∧ (replica.installSnapshot U snapshot).2 = .ok .applied

/-- The waiting frames that a replay from `seq` does not ignore carry the next numbers of the
epoch, one after another. -/
def Contiguous (U : Upstream K F H P I R E) (snapshot : UInt64 × UInt64) :
    UInt64 → List (CarrierFeedFrame K F H P) → Prop
  | _, [] => True
  | seq, frame :: frames =>
    if U.skips snapshot (some (snapshot.1, seq)) frame then Contiguous U snapshot seq frames
    else frame.epoch = snapshot.1 ∧ frame.seq.toNat = seq.toNat + 1 ∧
      Contiguous U snapshot frame.seq frames

/-- The call detects a gap or another epoch, or installs a snapshot whose waiting tail is not
contiguous with it. -/
def LosesSync (U : Upstream K F H P I R E) (replica : CarrierFeedReplica K F H P I) :
    Call K F H P → Prop
  | .apply frame => ∃ epoch seq, replica.synced = some (epoch, seq) ∧
      (frame.epoch ≠ epoch ∨ frame.seq.toNat > seq.toNat + 1)
  | .installSnapshot snapshot => U.check snapshot = .ok () ∧
      ¬ Contiguous U (snapshot.epoch, snapshot.seq) snapshot.seq replica.pending

/-- The replica answers no query. -/
def Silent (U : Upstream K F H P I R E) (replica : CarrierFeedReplica K F H P I) : Prop :=
  ∀ manifest hashes, replica.deepest U manifest hashes = none ∧
    replica.deepestByHolder U manifest hashes = []

/-! ## What a call can do -/

/-- **The outcomes of a call.** -/
inductive Performed (U : Upstream K F H P I R E) (replica : CarrierFeedReplica K F H P I) :
    Call K F H P → CarrierFeedReplica K F H P I → Prop
  | queued (frame : CarrierFeedFrame K F H P) (hsync : replica.synced = none) :
      Performed U replica (.apply frame) (replica.queuePending U frame)
  | lost (frame : CarrierFeedFrame K F H P) (epoch seq : UInt64)
      (hsync : replica.synced = some (epoch, seq))
      (hgap : frame.epoch ≠ epoch ∨ frame.seq > saturatingSucc seq) :
      Performed U replica (.apply frame)
        ({ replica.invalidate with synced := none, pending := [] }.queuePending U frame)
  | ignored (frame : CarrierFeedFrame K F H P) (epoch seq : UInt64)
      (hsync : replica.synced = some (epoch, seq)) (hstale : U.stale (epoch, seq) frame = true) :
      Performed U replica (.apply frame) replica
  | applied (frame : CarrierFeedFrame K F H P) (epoch seq : UInt64)
      (hsync : replica.synced = some (epoch, seq)) (hepoch : frame.epoch = epoch)
      (hseq : frame.seq ≤ saturatingSucc seq) (hstale : U.stale (epoch, seq) frame = false) :
      Performed U replica (.apply frame)
        { replica with
          view := { replica.view with manifests := applyFrame U replica.view.manifests frame }
          synced := some (epoch, frame.seq) }
  | refused (snapshot : CarrierFeedSnapshot K F H P) (e : E) (hcheck : U.check snapshot = .error e) :
      Performed U replica (.installSnapshot snapshot) replica
  | incomplete (snapshot : CarrierFeedSnapshot K F H P)
      (pending : List (CarrierFeedFrame K F H P)) (hcheck : U.check snapshot = .ok ())
      (hreplay : replay U (snapshot.epoch, snapshot.seq) (snapshotManifests U snapshot)
        (some (snapshot.epoch, snapshot.seq)) replica.pending = .error pending) :
      Performed U replica (.installSnapshot snapshot)
        { replica.invalidate with synced := none, pending }
  | installed (snapshot : CarrierFeedSnapshot K F H P)
      (manifests : FinMap K (ReplicaManifest F I)) (synced : Option (UInt64 × UInt64))
      (hinstalls : Installs U replica (.installSnapshot snapshot) snapshot)
      (hreplay : replay U (snapshot.epoch, snapshot.seq) (snapshotManifests U snapshot)
        (some (snapshot.epoch, snapshot.seq)) replica.pending = .ok (manifests, synced)) :
      Performed U replica (.installSnapshot snapshot)
        { replica with view := ⟨manifests, true⟩, synced, pending := [] }

/-- **Every call has one of these outcomes.** -/
theorem performed (U : Upstream K F H P I R E) (replica : CarrierFeedReplica K F H P I)
    (call : Call K F H P) : Performed U replica call (perform U replica call) := by
  cases call with
  | apply frame =>
    simp only [perform, CarrierFeedReplica.apply]
    split
    · rename_i hsync
      exact .queued frame hsync
    · rename_i epoch seq hsync
      split
      · rename_i hgap
        exact .lost frame epoch seq hsync hgap
      · rename_i hgap
        obtain ⟨hepoch, hseq⟩ := not_or.1 hgap
        split
        · rename_i hstale
          exact .ignored frame epoch seq hsync hstale
        · rename_i hstale
          exact .applied frame epoch seq hsync (Classical.not_not.1 hepoch)
            (UInt64.not_lt.1 hseq) (Bool.eq_false_iff.2 hstale)
  | installSnapshot snapshot =>
    cases hcheck : U.check snapshot with
    | error e =>
      simp only [perform, CarrierFeedReplica.installSnapshot, hcheck]
      exact .refused snapshot e hcheck
    | ok u =>
      cases hreplay : replay U (snapshot.epoch, snapshot.seq) (snapshotManifests U snapshot)
          (some (snapshot.epoch, snapshot.seq)) replica.pending with
      | error pending =>
        simp only [perform, CarrierFeedReplica.installSnapshot, hcheck, hreplay]
        exact .incomplete snapshot pending hcheck hreplay
      | ok result =>
        obtain ⟨manifests, synced⟩ := result
        have hinstalls : Installs U replica (.installSnapshot snapshot) snapshot :=
          ⟨rfl, by simp only [CarrierFeedReplica.installSnapshot, hcheck, hreplay]⟩
        simp only [perform, CarrierFeedReplica.installSnapshot, hcheck, hreplay]
        exact .installed snapshot manifests synced hinstalls hreplay

/-! ## Silence -/

omit [DecidableEq F] in
theorem silent_of_not_queryable {replica : CarrierFeedReplica K F H P I}
    (h : replica.view.queryable = false) : Silent U replica := by
  intro manifest hashes
  simp [deepest, deepestByHolder, h]

/-- A replay that comes to its end has met a contiguous tail. -/
theorem contiguous_of_replay
    (hold : ∀ snapshot epoch seq frame, frame.epoch = epoch → frame.seq ≤ seq →
      U.skips snapshot (some (epoch, seq)) frame = true)
    {snapshot : UInt64 × UInt64}
    {result : FinMap K (ReplicaManifest F I) × Option (UInt64 × UInt64)} :
    ∀ {pending : List (CarrierFeedFrame K F H P)} {manifests : FinMap K (ReplicaManifest F I)}
      {seq : UInt64},
      replay U snapshot manifests (some (snapshot.1, seq)) pending = .ok result →
        Contiguous U snapshot seq pending
  | [], _, _, _ => trivial
  | frame :: pending, manifests, seq, h => by
    rw [replay] at h
    rw [Contiguous]
    split at h
    · rename_i hskip
      rw [if_pos hskip]
      exact contiguous_of_replay hold h
    · rename_i hskip
      rw [if_neg hskip]
      split at h
      · cases h
      · rename_i hnext
        obtain ⟨hepoch, hseq⟩ := not_or.1 hnext
        have hepoch' : frame.epoch = snapshot.1 := Classical.not_not.1 hepoch
        -- a frame at the cursor would have been ignored, so the successor is no saturated one
        have hlt : seq < frame.seq :=
          UInt64.not_le.1 fun hle => hskip (hold snapshot snapshot.1 seq frame hepoch' hle)
        have hle : frame.seq ≤ saturatingSucc seq := UInt64.le_of_eq (Classical.not_not.1 hseq)
        exact ⟨hepoch', toNat_eq_succ hlt hle, contiguous_of_replay hold h⟩

/-- The call that loses the feed makes the view unqueryable. -/
theorem LosesSync.silences
    (hold : ∀ snapshot epoch seq frame, frame.epoch = epoch → frame.seq ≤ seq →
      U.skips snapshot (some (epoch, seq)) frame = true)
    {replica : CarrierFeedReplica K F H P I} {call : Call K F H P}
    (h : LosesSync U replica call) : (perform U replica call).view.queryable = false := by
  cases call with
  | apply frame =>
    obtain ⟨epoch, seq, hsync, hgap⟩ := h
    rw [← gt_saturatingSucc_iff] at hgap
    simp only [perform, CarrierFeedReplica.apply, hsync, hgap, if_true, queuePending_view,
      invalidate]
  | installSnapshot snapshot =>
    obtain ⟨hcheck, hgap⟩ := h
    simp only [perform, CarrierFeedReplica.installSnapshot, hcheck]
    split
    · rfl
    · rename_i hreplay
      exact absurd (contiguous_of_replay hold hreplay) hgap

/-- Only an installed snapshot makes a view queryable. -/
theorem Performed.stays_unqueryable {replica replica' : CarrierFeedReplica K F H P I}
    {call : Call K F H P} (h : Performed U replica call replica')
    (hcall : ∀ snapshot, ¬ Installs U replica call snapshot)
    (hq : replica.view.queryable = false) : replica'.view.queryable = false := by
  cases h with
  | queued frame hsync => rw [queuePending_view, hq]
  | lost frame epoch seq hsync hgap => rw [queuePending_view]; rfl
  | ignored | refused => exact hq
  | applied => exact hq
  | incomplete => rfl
  | installed snapshot manifests synced hinstalls hreplay => exact absurd hinstalls (hcall snapshot)

/-! ## Known manifests -/

/-- The call installs a snapshot that omits the manifest. -/
def Omits (U : Upstream K F H P I R E) (manifest : K) (replica : CarrierFeedReplica K F H P I)
    (call : Call K F H P) : Prop :=
  ∃ snapshot, Installs U replica call snapshot ∧
    manifest ∉ snapshot.manifests.map (·.manifest)

theorem replayFrame_known {manifests : FinMap K (ReplicaManifest F I)} {manifest : K}
    (frame : CarrierFeedFrame K F H P) (h : (manifests.get? manifest).isSome) :
    ((replayFrame U manifests frame).get? manifest).isSome := by
  simp only [replayFrame, FinMap.get?_insert]
  split
  · rfl
  · exact h

theorem replay_known {snapshot : UInt64 × UInt64} {manifest : K}
    {result : FinMap K (ReplicaManifest F I) × Option (UInt64 × UInt64)} :
    ∀ {pending : List (CarrierFeedFrame K F H P)} {manifests : FinMap K (ReplicaManifest F I)}
      {synced : Option (UInt64 × UInt64)}, (manifests.get? manifest).isSome →
      replay U snapshot manifests synced pending = .ok result → (result.1.get? manifest).isSome
  | [], _, _, hm, h => by
    cases h
    exact hm
  | frame :: pending, manifests, synced, hm, h => by
    unfold replay at h
    split at h
    · exact replay_known hm h
    · split at h
      · cases h
      · split at h
        · cases h
        · exact replay_known (replayFrame_known frame hm) h

omit [DecidableEq F] in
theorem snapshotManifests_known {snapshot : CarrierFeedSnapshot K F H P} {manifest : K} :
    ((snapshotManifests U snapshot).get? manifest).isSome ↔
      manifest ∈ snapshot.manifests.map (·.manifest) := by
  rw [snapshotManifests, FinMap.isSome_get?_ofList, List.map_map]
  rfl

/-- **A known manifest stays known**, until a snapshot that omits it is installed. -/
theorem Performed.known {replica replica' : CarrierFeedReplica K F H P I} {call : Call K F H P}
    {manifest : K} (h : Performed U replica call replica') (hcall : ¬ Omits U manifest replica call)
    (hm : (replica.kind manifest).isSome) : (replica'.kind manifest).isSome := by
  unfold kind at hm ⊢
  rw [Option.isSome_map] at hm ⊢
  cases h with
  | queued => rwa [queuePending_view]
  | lost => rwa [queuePending_view]
  | ignored | refused | incomplete => exact hm
  | applied frame => rw [applyFrame_eq]; exact replayFrame_known frame hm
  | installed snapshot manifests synced hinstalls hreplay =>
    have hin : manifest ∈ snapshot.manifests.map (·.manifest) :=
      Classical.not_not.1 fun hnot => hcall ⟨snapshot, hinstalls, hnot⟩
    exact replay_known (snapshotManifests_known.2 hin) hreplay

/-! ## Runs -/

/-- **A replica that has lost the feed is silent, and forgets no manifest.**  In any state,
after a call that detects a gap or another epoch, or that installs a snapshot with an
incomplete tail, no query is answered until a later snapshot is installed; and throughout, a
known manifest stays known until a snapshot that omits it is installed. -/
theorem resync_safe
    (hold : ∀ snapshot epoch seq frame, frame.epoch = epoch → frame.seq ≤ seq →
      U.skips snapshot (some (epoch, seq)) frame = true) :
    (∀ (replica replica' : CarrierFeedReplica K F H P I) (call : Call K F H P)
      (later : List (Call K F H P)), LosesSync U replica call →
      Runs.AllSteps (step U) (fun r c => ∀ snapshot, ¬ Installs U r c snapshot)
        (perform U replica call) later →
      Runs.run (step U) (perform U replica call) later = some replica' → Silent U replica') ∧
    (∀ (replica replica' : CarrierFeedReplica K F H P I) (manifest : K)
      (later : List (Call K F H P)), (replica.kind manifest).isSome →
      Runs.AllSteps (step U) (fun r c => ¬ Omits U manifest r c) replica later →
      Runs.run (step U) replica later = some replica' → (replica'.kind manifest).isSome) := by
  constructor
  · intro replica replica' call later hloses hlater hrun
    refine silent_of_not_queryable ?_
    refine Runs.allSteps_induction (P := fun r => r.view.queryable = false) ?_
      (hloses.silences hold) hlater hrun
    rintro r c _ hq hc ⟨⟩
    exact (performed U r c).stays_unqueryable hc hq
  · intro replica replica' manifest later hknown hlater hrun
    refine Runs.allSteps_induction (P := fun r => (r.kind manifest).isSome) ?_ hknown hlater hrun
    rintro r c _ hm hc ⟨⟩
    exact (performed U r c).known hc hm

/-- A snapshot, and then a frame past the next one. -/
def gapReplica : CarrierFeedReplica Nat Nat Nat Nat (List (Nat × Nat)) :=
  (CarrierFeedReplica.installSnapshot plainUpstream (.new 16) (plainSnapshot 0)).1

theorem resync_safe_gapReplica : ∃ replica,
    gapReplica.deepest plainUpstream 1 [10, 11, 12] = some 12 ∧
    Runs.run (step plainUpstream) (perform plainUpstream gapReplica (.apply (plainFrame 2 13)))
      [.installSnapshot (plainSnapshot 0)] = some replica ∧
    Silent plainUpstream replica ∧ (replica.kind 1).isSome := by
  have hlater : Runs.AllSteps (step plainUpstream)
      (fun r c => ∀ snapshot, ¬ Installs plainUpstream r c snapshot)
      (perform plainUpstream gapReplica (.apply (plainFrame 2 13)))
      [.installSnapshot (plainSnapshot 0)] := by
    refine ⟨?_, fun _ _ => trivial⟩
    rintro _ ⟨⟨⟩, happlied⟩
    exact absurd happlied (by decide)
  have hkept : Runs.AllSteps (step plainUpstream) (fun r c => ¬ Omits plainUpstream 1 r c)
      (perform plainUpstream gapReplica (.apply (plainFrame 2 13)))
      [.installSnapshot (plainSnapshot 0)] :=
    ⟨fun ⟨snapshot, hinstalls, _⟩ => hlater.1 snapshot hinstalls, fun _ _ => trivial⟩
  have hloses : LosesSync plainUpstream gapReplica (.apply (plainFrame 2 13)) :=
    ⟨1, 0, by decide, Or.inr (by decide)⟩
  have hsafe := resync_safe plainUpstream_faithful.skips_old
  exact ⟨_, by decide, rfl, hsafe.1 _ _ _ _ hloses hlater rfl,
    hsafe.2 _ _ 1 _ (by decide) hkept rfl⟩

end ReedCode.CarrierFeed
