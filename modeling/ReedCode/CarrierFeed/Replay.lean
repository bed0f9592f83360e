import ReedCode.CarrierFeed.Resync

/-!
# A replica is a copy of the feed

What a queryable replica holds is fixed by a snapshot and the frames that follow it: the
`contents` of the feed up to the cursor, whichever way the frames came in.

* `replay_follows` — a replay that comes to its end has replayed exactly the next frames;
* `answers_complete` — in every run, a queryable replica holds the contents of the feed from
  an installed snapshot up to its cursor;
* `replay_eq_live` — frames that waited for the snapshot and frames applied after it leave
  one replica;
* `replay_overflow` — a queue without room loses frames that a live replica applies.
-/

set_option autoImplicit false

namespace ReedCode.CarrierFeed

open CarrierFeedReplica

variable {K F H P I R E : Type} [DecidableEq K] [DecidableEq F] {U : Upstream K F H P I R E}

/-! ## Contents of the feed -/

/-- The manifests of a snapshot, with the frames that follow it. -/
def contents (U : Upstream K F H P I R E) (snapshot : CarrierFeedSnapshot K F H P)
    (frames : List (CarrierFeedFrame K F H P)) : FinMap K (ReplicaManifest F I) :=
  frames.foldl (replayFrame U) (snapshotManifests U snapshot)

/-- The frames carry the next numbers of the epoch, from after `seq` up to `last`. -/
def Follows (epoch : UInt64) : UInt64 → List (CarrierFeedFrame K F H P) → UInt64 → Prop
  | seq, [], last => seq = last
  | seq, frame :: frames, last =>
    frame.epoch = epoch ∧ frame.seq.toNat = seq.toNat + 1 ∧ Follows epoch frame.seq frames last

omit [DecidableEq K] [DecidableEq F] in
theorem Follows.snoc {epoch : UInt64} {frame : CarrierFeedFrame K F H P}
    (hepoch : frame.epoch = epoch) : ∀ {frames : List (CarrierFeedFrame K F H P)}
      {seq last : UInt64}, Follows epoch seq frames last → frame.seq.toNat = last.toNat + 1 →
        Follows epoch seq (frames ++ [frame]) frame.seq
  | [], _, _, rfl, hnext => ⟨hepoch, hnext, rfl⟩
  | _ :: _, _, _, ⟨hepoch', hnext', hrest⟩, hnext =>
    ⟨hepoch', hnext', hrest.snoc hepoch hnext⟩

/-- **A replay that comes to its end** has replayed the frames that follow, and no others. -/
theorem replay_follows (hU : U.Faithful) {snapshot : UInt64 × UInt64}
    {result : FinMap K (ReplicaManifest F I) × Option (UInt64 × UInt64)} :
    ∀ {pending : List (CarrierFeedFrame K F H P)} {manifests : FinMap K (ReplicaManifest F I)}
      {seq : UInt64}, replay U snapshot manifests (some (snapshot.1, seq)) pending = .ok result →
      ∃ frames last, (∀ frame ∈ frames, frame ∈ pending) ∧
        Follows snapshot.1 seq frames last ∧
        result = (frames.foldl (replayFrame U) manifests, some (snapshot.1, last))
  | [], manifests, seq, h => by
    cases h
    exact ⟨[], seq, fun _ hf => hf, rfl, rfl⟩
  | frame :: pending, manifests, seq, h => by
    rw [replay] at h
    split at h
    · obtain ⟨frames, last, hmem, hfollows, hresult⟩ := replay_follows hU h
      exact ⟨frames, last, fun f hf => List.mem_cons_of_mem frame (hmem f hf), hfollows, hresult⟩
    · rename_i hskip
      split at h
      · cases h
      · rename_i hnext
        obtain ⟨hepoch, hseq⟩ := not_or.1 hnext
        have hepoch' : frame.epoch = snapshot.1 := Classical.not_not.1 hepoch
        have hlt : seq < frame.seq := UInt64.not_le.1 fun hle =>
          hskip (hU.skips_old snapshot snapshot.1 seq frame hepoch' hle)
        have hle : frame.seq ≤ saturatingSucc seq := UInt64.le_of_eq (Classical.not_not.1 hseq)
        obtain ⟨frames, last, hmem, hfollows, hresult⟩ := replay_follows hU h
        refine ⟨frame :: frames, last, fun f hf => ?_, ⟨hepoch', toNat_eq_succ hlt hle, hfollows⟩,
          hresult⟩
        exact (List.mem_cons.1 hf).elim (fun he => he ▸ List.mem_cons_self)
          fun hf => List.mem_cons_of_mem frame (hmem f hf)

/-- What waits on after a replay was waiting before it. -/
theorem replay_error_mem {snapshot : UInt64 × UInt64} {left : List (CarrierFeedFrame K F H P)} :
    ∀ {pending : List (CarrierFeedFrame K F H P)} {manifests : FinMap K (ReplicaManifest F I)}
      {synced : Option (UInt64 × UInt64)},
      replay U snapshot manifests synced pending = .error left → ∀ frame ∈ left, frame ∈ pending
  | [], _, _, h => by cases h
  | frame :: pending, manifests, synced, h => by
    have later : ∀ {manifests' : FinMap K (ReplicaManifest F I)} {synced'},
        replay U snapshot manifests' synced' pending = .error left →
          ∀ f ∈ left, f ∈ frame :: pending :=
      fun h f hf => List.mem_cons_of_mem frame (replay_error_mem h f hf)
    unfold replay at h
    split at h
    · exact later h
    · split at h
      · cases h
        exact fun f hf => hf
      · split at h
        · cases h
          exact fun f hf => hf
        · exact later h

/-! ## Every run -/

/-- The manifests are the contents of the feed up to the cursor, from a snapshot and frames
among the calls. -/
def Complete (U : Upstream K F H P I R E) (calls : List (Call K F H P))
    (replica : CarrierFeedReplica K F H P I) : Prop :=
  ∃ snapshot frames last, Call.installSnapshot snapshot ∈ calls ∧
    (∀ frame ∈ frames, Call.apply frame ∈ calls) ∧
    Follows snapshot.epoch snapshot.seq frames last ∧
    replica.synced = some (snapshot.epoch, last) ∧
    replica.view.manifests = contents U snapshot frames

/-- What holds of a replica after a list of calls. -/
structure CopyOk (U : Upstream K F H P I R E) (calls : List (Call K F H P))
    (replica : CarrierFeedReplica K F H P I) : Prop where
  waiting : ∀ frame ∈ replica.pending, Call.apply frame ∈ calls
  unsynced : replica.synced = none → replica.view.queryable = false
  complete : replica.synced ≠ none → Complete U calls replica

theorem CopyOk.new (U : Upstream K F H P I R E) (maxPending : Nat) :
    CopyOk U [] (.new maxPending) :=
  ⟨fun _ h => (by cases h), fun _ => rfl, fun h => absurd rfl h⟩

omit [DecidableEq K] [DecidableEq F] in
theorem mem_queuePending (hU : U.Faithful) {replica : CarrierFeedReplica K F H P I}
    {frame waiting : CarrierFeedFrame K F H P}
    (h : waiting ∈ (replica.queuePending U frame).pending) :
    waiting ∈ replica.pending ∨ waiting = frame := by
  unfold queuePending at h
  split at h
  · exact Or.inl h
  · exact hU.enqueue_mem _ _ _ _ h

theorem Complete.mono {calls : List (Call K F H P)} {call : Call K F H P}
    {replica : CarrierFeedReplica K F H P I} (h : Complete U calls replica) :
    Complete U (calls ++ [call]) replica := by
  obtain ⟨snapshot, frames, last, hsnap, hframes, hrest⟩ := h
  exact ⟨snapshot, frames, last, List.mem_append_left _ hsnap,
    fun f hf => List.mem_append_left _ (hframes f hf), hrest⟩

theorem CopyOk.perform (hU : U.Faithful) {calls : List (Call K F H P)} {call : Call K F H P}
    {replica : CarrierFeedReplica K F H P I} (hc : CopyOk U calls replica) :
    CopyOk U (calls ++ [call]) (perform U replica call) := by
  have hlast : call ∈ calls ++ [call] := List.mem_append_right _ List.mem_cons_self
  have hold : ∀ frame ∈ replica.pending, Call.apply frame ∈ calls ++ [call] :=
    fun frame hf => List.mem_append_left _ (hc.waiting frame hf)
  have hp := performed U replica call
  revert hp
  generalize CarrierFeed.perform U replica call = replica'
  intro hp
  cases hp with
  | queued frame hsync =>
    refine ⟨fun f hf => ?_, fun _ => ?_, fun h => ?_⟩
    · exact (mem_queuePending hU hf).elim (hold f) fun he => he ▸ hlast
    · rw [queuePending_view]
      exact hc.unsynced hsync
    · rw [queuePending_synced] at h
      exact absurd hsync h
  | lost frame epoch seq hsync hgap =>
    refine ⟨fun f hf => ?_, fun _ => ?_, fun h => ?_⟩
    · exact (mem_queuePending hU hf).elim (fun hnil => by cases hnil) fun he => he ▸ hlast
    · rw [queuePending_view]
      rfl
    · rw [queuePending_synced] at h
      exact absurd rfl h
  | ignored | refused => exact ⟨hold, hc.unsynced, fun h => (hc.complete h).mono⟩
  | applied frame epoch seq hsync hepoch hseq hstale =>
    refine ⟨hold, fun h => (by cases h), fun _ => ?_⟩
    obtain ⟨snapshot, frames, last, hsnap, hframes, hfollows, hcursor, hmanifests⟩ :=
      hc.complete (by rw [hsync]; exact Option.some_ne_none _)
    rw [hsync] at hcursor
    obtain ⟨rfl, rfl⟩ := Prod.mk.inj (Option.some.inj hcursor)
    have hlt : seq < frame.seq := UInt64.not_le.1 fun hle => by
      rw [hU.stale_old _ _ frame hepoch hle] at hstale
      cases hstale
    refine ⟨snapshot, frames ++ [frame], frame.seq, List.mem_append_left _ hsnap, fun f hf => ?_,
      hfollows.snoc hepoch (toNat_eq_succ hlt hseq), rfl, ?_⟩
    · exact (List.mem_append.1 hf).elim (fun hf => List.mem_append_left _ (hframes f hf))
        fun he => List.mem_singleton.1 he ▸ hlast
    · rw [contents, List.foldl_append, applyFrame_eq, hmanifests]
      rfl
  | incomplete snapshot pending hcheck hreplay =>
    refine ⟨fun f hf => hold f (replay_error_mem hreplay f hf), fun _ => rfl,
      fun h => absurd rfl h⟩
  | installed snapshot manifests synced hinstalls hreplay =>
    obtain ⟨frames, last, hmem, hfollows, hresult⟩ := replay_follows hU hreplay
    obtain ⟨rfl, rfl⟩ := Prod.mk.inj hresult
    refine ⟨fun f hf => (by cases hf), fun h => (by cases h), fun _ => ?_⟩
    exact ⟨snapshot, frames, last, hlast, fun f hf => hold f (hmem f hf), hfollows, rfl, rfl⟩

theorem CopyOk.run (hU : U.Faithful) : ∀ {later calls : List (Call K F H P)}
    {replica replica' : CarrierFeedReplica K F H P I}, CopyOk U calls replica →
    Runs.run (step U) replica later = some replica' → CopyOk U (calls ++ later) replica'
  | [], calls, _, _, hc, hr => by
    cases hr
    rwa [List.append_nil]
  | call :: later, calls, replica, replica', hc, hr => by
    obtain ⟨_, ⟨⟩, hrest⟩ := (Runs.run_cons_eq_some _).1 hr
    have := CopyOk.run hU (hc.perform hU) hrest
    rwa [List.append_assoc] at this

/-- **A replica never answers from an incomplete view.**  In every run, what a queryable
replica holds is a snapshot among the calls and all the frames that follow it up to the
cursor. -/
theorem answers_complete (hU : U.Faithful) {maxPending : Nat} {calls : List (Call K F H P)}
    {replica : CarrierFeedReplica K F H P I}
    (hrun : Runs.run (step U) (.new maxPending) calls = some replica)
    (hq : replica.view.queryable = true) : Complete U calls replica := by
  have hc : CopyOk U ([] ++ calls) replica := (CopyOk.new U maxPending).run hU hrun
  refine hc.complete fun hsync => ?_
  rw [hc.unsynced hsync] at hq
  cases hq

/-! ## Replay and live application -/

/-- Receive frames one after another. -/
def receive (U : Upstream K F H P I R E) (replica : CarrierFeedReplica K F H P I)
    (frames : List (CarrierFeedFrame K F H P)) : CarrierFeedReplica K F H P I :=
  frames.foldl (fun r frame => (r.apply U frame).1) replica

/-- Without a cursor, frames that find room wait in order. -/
theorem receive_waiting (hU : U.Faithful) : ∀ {frames : List (CarrierFeedFrame K F H P)}
    {replica : CarrierFeedReplica K F H P I}, replica.synced = none →
    replica.pending.length + frames.length ≤ replica.maxPending →
    receive U replica frames = { replica with pending := replica.pending ++ frames }
  | [], replica, _, _ => by
    rw [List.append_nil]
    rfl
  | frame :: frames, replica, hsync, hroom => by
    rw [List.length_cons] at hroom
    have hqueue : (replica.apply U frame).1 =
        { replica with pending := replica.pending ++ [frame] } := by
      have hcap : replica.maxPending ≠ 0 := by omega
      have henqueue := hU.enqueue_room replica.maxPending replica.pending frame (by omega)
      simp only [CarrierFeedReplica.apply, hsync, queuePending, hcap, if_false, henqueue]
    have hrest : receive U { replica with pending := replica.pending ++ [frame] } frames = _ :=
      receive_waiting hU hsync (by simp only [List.length_append, List.length_singleton]; omega)
    rw [receive, List.foldl_cons, hqueue]
    rw [receive] at hrest
    rw [hrest, List.append_assoc]
    rfl

/-- A synced replica applies the frames that follow. -/
theorem receive_live (hU : U.Faithful) {epoch : UInt64} :
    ∀ {frames : List (CarrierFeedFrame K F H P)} {seq last : UInt64}
      {replica : CarrierFeedReplica K F H P I}, replica.synced = some (epoch, seq) →
      Follows epoch seq frames last →
      receive U replica frames = { replica with
        view := { replica.view with
          manifests := frames.foldl (replayFrame U) replica.view.manifests }
        synced := some (epoch, last) }
  | [], seq, _, replica, hsync, rfl => by
    rw [List.foldl_nil, ← hsync]
    rfl
  | frame :: frames, seq, last, replica, hsync, ⟨hepoch, hseq, hrest⟩ => by
    have hgap : ¬ (frame.epoch ≠ epoch ∨ frame.seq > saturatingSucc seq) := by
      rw [gt_saturatingSucc_iff, not_or, Classical.not_not]
      exact ⟨hepoch, by omega⟩
    have hlt : seq < frame.seq := UInt64.lt_iff_toNat_lt.2 (by omega)
    have hstale : U.stale (epoch, seq) frame = false := hU.stale_next _ _ frame hepoch hlt
    have happly : (replica.apply U frame).1 = { replica with
        view := { replica.view with manifests := replayFrame U replica.view.manifests frame }
        synced := some (epoch, frame.seq) } := by
      simp only [CarrierFeedReplica.apply, hsync, hgap, if_false, hstale, Bool.false_eq_true,
        applyFrame_eq]
    have hlater : receive U { replica with
        view := { replica.view with manifests := replayFrame U replica.view.manifests frame }
        synced := some (epoch, frame.seq) } frames = _ := receive_live hU rfl hrest
    rw [receive, List.foldl_cons, happly]
    exact hlater

/-- The replay passes over ignored frames and takes the frames that follow. -/
theorem replay_of_follows (hU : U.Faithful) {epoch start : UInt64} :
    ∀ {frames : List (CarrierFeedFrame K F H P)} {seq last : UInt64}
      {manifests : FinMap K (ReplicaManifest F I)}, start ≤ seq → Follows epoch seq frames last →
      replay U (epoch, start) manifests (some (epoch, seq)) frames =
        .ok (frames.foldl (replayFrame U) manifests, some (epoch, last))
  | [], _, _, _, _, rfl => rfl
  | frame :: frames, seq, last, manifests, hle, ⟨hepoch, hseq, hrest⟩ => by
    have hlt : seq < frame.seq := UInt64.lt_iff_toNat_lt.2 (by omega)
    have hskip : U.skips (epoch, start) (some (epoch, seq)) frame = false :=
      hU.skips_next _ _ _ frame hepoch hle hlt
    have hnext : ¬ (frame.epoch ≠ epoch ∨ frame.seq ≠ saturatingSucc seq) := by
      rw [not_or, Classical.not_not, Classical.not_not]
      exact ⟨hepoch, eq_saturatingSucc hseq⟩
    rw [replay, hskip, if_neg Bool.false_ne_true]
    simp only [hnext, if_false]
    exact replay_of_follows hU (UInt64.le_trans hle (UInt64.le_of_lt hlt)) hrest

/-- The replay passes over frames that the snapshot makes old. -/
theorem replay_append_of_skips {snapshot : UInt64 × UInt64}
    {manifests : FinMap K (ReplicaManifest F I)} {synced : Option (UInt64 × UInt64)}
    {frames : List (CarrierFeedFrame K F H P)} : ∀ {old : List (CarrierFeedFrame K F H P)},
    (∀ frame ∈ old, U.skips snapshot synced frame = true) →
    replay U snapshot manifests synced (old ++ frames) = replay U snapshot manifests synced frames
  | [], _ => rfl
  | frame :: old, hold => by
    rw [List.cons_append, replay.eq_def]
    simp only [hold frame List.mem_cons_self, if_true]
    exact replay_append_of_skips fun f hf => hold f (List.mem_cons_of_mem frame hf)

/-- **Buffered replay equals live application.**  Take a replica without a cursor, whose
waiting frames the snapshot makes old, and frames that follow the snapshot and find room to
wait.  Receiving them before the snapshot or after it leaves one replica, queryable, with the
contents of the feed up to the last frame. -/
theorem replay_eq_live (hU : U.Faithful) {replica : CarrierFeedReplica K F H P I}
    {snapshot : CarrierFeedSnapshot K F H P} {frames : List (CarrierFeedFrame K F H P)}
    {last : UInt64} (hsync : replica.synced = none)
    (hold : ∀ frame ∈ replica.pending, U.skips (snapshot.epoch, snapshot.seq)
      (some (snapshot.epoch, snapshot.seq)) frame = true)
    (hcheck : U.check snapshot = .ok ())
    (hfollows : Follows snapshot.epoch snapshot.seq frames last)
    (hroom : replica.pending.length + frames.length ≤ replica.maxPending) :
    ((receive U replica frames).installSnapshot U snapshot).1 =
        receive U (replica.installSnapshot U snapshot).1 frames ∧
      ((receive U replica frames).installSnapshot U snapshot).1 =
        { replica with
          view := ⟨contents U snapshot frames, true⟩
          synced := some (snapshot.epoch, last)
          pending := [] } := by
  -- the snapshot first: the old frames go, the others come in live
  have hinstall : (replica.installSnapshot U snapshot).1 = { replica with
      view := ⟨snapshotManifests U snapshot, true⟩
      synced := some (snapshot.epoch, snapshot.seq)
      pending := [] } := by
    have hreplay : replay U (snapshot.epoch, snapshot.seq) (snapshotManifests U snapshot)
        (some (snapshot.epoch, snapshot.seq)) (replica.pending ++ []) = _ :=
      replay_append_of_skips hold
    rw [List.append_nil] at hreplay
    simp only [CarrierFeedReplica.installSnapshot, hcheck, hreplay, replay]
  have hlive : receive U (replica.installSnapshot U snapshot).1 frames = { replica with
      view := ⟨contents U snapshot frames, true⟩
      synced := some (snapshot.epoch, last)
      pending := [] } := by
    rw [hinstall, receive_live hU rfl hfollows]
    rfl
  -- the frames first: they wait behind the old ones and are replayed
  have hbuffered : ((receive U replica frames).installSnapshot U snapshot).1 = { replica with
      view := ⟨contents U snapshot frames, true⟩
      synced := some (snapshot.epoch, last)
      pending := [] } := by
    rw [receive_waiting hU hsync hroom]
    simp only [CarrierFeedReplica.installSnapshot, hcheck, replay_append_of_skips hold,
      replay_of_follows hU (UInt64.le_refl _) hfollows]
    rfl
  exact ⟨hbuffered.trans hlive.symm, hbuffered⟩

theorem replay_eq_live_plainFrames :
    Follows 1 0 [plainFrame 1 13, plainFrame 2 14] 2 ∧
    ((receive plainUpstream (.new 2) [plainFrame 1 13, plainFrame 2 14]).installSnapshot
        plainUpstream (plainSnapshot 0)).1 =
      receive plainUpstream (CarrierFeedReplica.installSnapshot plainUpstream (.new 2)
        (plainSnapshot 0)).1 [plainFrame 1 13, plainFrame 2 14] := by
  have hfollows : Follows 1 0 [plainFrame 1 13, plainFrame 2 14] 2 :=
    ⟨rfl, rfl, rfl, rfl, rfl⟩
  refine ⟨hfollows, And.left (replay_eq_live plainUpstream_faithful rfl ?_ rfl hfollows ?_)⟩
  · exact fun _ h => by cases h
  · decide

/-- **A queue without room loses frames.**  A replica that keeps no frames comes out of a
snapshot at the number of the snapshot, where a live one has applied the frame. -/
theorem replay_overflow :
    Follows 1 0 [plainFrame 1 13] 1 ∧
    ((receive plainUpstream (.new 0) [plainFrame 1 13]).installSnapshot plainUpstream
      (plainSnapshot 0)).1.synced = some (1, 0) ∧
    (receive plainUpstream (CarrierFeedReplica.installSnapshot plainUpstream (.new 0)
      (plainSnapshot 0)).1 [plainFrame 1 13]).synced = some (1, 1) :=
  ⟨⟨rfl, rfl, rfl⟩, by decide, by decide⟩

end ReedCode.CarrierFeed
