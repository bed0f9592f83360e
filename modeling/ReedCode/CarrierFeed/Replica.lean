import ReedCode.Lib.FinMap
import ReedCode.Lib.Runs

/-!
# The carrier feed replica

`CarrierFeedReplica` of `carrier_feed.rs` after the fix: a copy of a hub's carrier manifests,
kept by a snapshot and the frames that follow it, and queried while it is complete.

* The published `view` holds the manifests and whether they may be queried; the cursor
  (`synced`) and the frames that wait for a snapshot (`pending`) are kept apart from it.
* `apply` takes one frame of the feed; `installSnapshot` replays the waiting frames on a
  snapshot and publishes the result only if they follow it without a gap.
* `Upstream` holds what the fix does not show: the `PositionalCarrierIndex`, how a snapshot
  is checked and loaded, how a frame waits, and which frames are old.  `Upstream.Faithful`
  states what is relied on of them.

A map of manifests is a `FinMap`; an index that is mutated through a shared pointer is
written back under its key.
-/

set_option autoImplicit false

namespace ReedCode.CarrierFeed

/-! ## Frames and snapshots -/

inductive CarrierFeedOp (P : Type) where
  | insert (hashes : List P)
  | remove (hashes : List P)
  | replaceHolder (hashes : List P)
  | removeHolder
  deriving DecidableEq, Repr

/-- A frame of the feed, over manifest keys `K`, feed kinds `F`, holders `H` and positional
lineage hashes `P`. -/
structure CarrierFeedFrame (K F H P : Type) where
  version : Nat
  epoch : UInt64
  seq : UInt64
  manifest : K
  kind : F
  maxPositions : Nat
  holder : H
  op : CarrierFeedOp P
  deriving DecidableEq, Repr

structure HolderSnapshot (H P : Type) where
  holder : H
  hashes : List P

structure ManifestSnapshot (K F H P : Type) where
  manifest : K
  kind : F
  maxPositions : Nat
  holders : List (HolderSnapshot H P)

structure CarrierFeedSnapshot (K F H P : Type) where
  version : Nat
  epoch : UInt64
  seq : UInt64
  manifests : List (ManifestSnapshot K F H P)

inductive FeedApply where
  | applied
  | needsSnapshot
  /-- Any other answer of a call that the fix leaves alone. -/
  | other
  deriving DecidableEq, Repr

/-- `u64::saturating_add(1)`. -/
def saturatingSucc (n : UInt64) : UInt64 := if n = UInt64.ofNat (2 ^ 64 - 1) then n else n + 1

/-- A number above the saturated successor is past the next one. -/
theorem gt_saturatingSucc_iff {n m : UInt64} : m > saturatingSucc n ↔ m.toNat > n.toNat + 1 := by
  have hm := m.toNat_lt
  simp only [saturatingSucc, GT.gt, UInt64.lt_iff_toNat_lt]
  split
  · rename_i h
    subst h
    simp
    omega
  · rename_i h
    have hn : n.toNat ≠ 2 ^ 64 - 1 := fun he => h (UInt64.toNat_inj.1 (by simpa using he))
    have := n.toNat_lt
    rw [UInt64.toNat_add, Nat.mod_eq_of_lt]
    · simp
    · simp
      omega

/-- Above the number itself and not past the saturated successor there is the next number. -/
theorem toNat_eq_succ {n m : UInt64} (hlt : n < m) (h : m ≤ saturatingSucc n) :
    m.toNat = n.toNat + 1 := by
  have hnot : ¬ m.toNat > n.toNat + 1 := fun hgt =>
    UInt64.not_lt.2 h (gt_saturatingSucc_iff.2 hgt)
  have := UInt64.lt_iff_toNat_lt.1 hlt
  omega

theorem eq_saturatingSucc {n m : UInt64} (h : m.toNat = n.toNat + 1) : m = saturatingSucc n := by
  have := m.toNat_lt
  unfold saturatingSucc
  split
  · rename_i hn
    subst hn
    simp at h
    omega
  · refine UInt64.toNat_inj.1 ?_
    rw [UInt64.toNat_add, Nat.mod_eq_of_lt]
    · simpa using h
    · simp
      omega

/-! ## What the fix does not show -/

/-- `PositionalCarrierIndex` (as values of `I`, with hits `R`) and the parts of the replica
outside the fix. -/
structure Upstream (K F H P I R E : Type) where
  new : Nat → I
  growTo : I → Nat → I
  insert : I → H → List P → I
  remove : I → H → List P → I
  replaceHolder : I → H → List P → I
  removeHolder : I → H → I
  deepest : I → List P → Option R
  deepestByHolder : I → List P → List (H × P)
  /-- The index `install_snapshot` builds for one manifest of a snapshot. -/
  load : ManifestSnapshot K F H P → I
  /-- What `install_snapshot` refuses before it touches the replica. -/
  check : CarrierFeedSnapshot K F H P → Except E Unit
  /-- `queue_pending` with a queue of positive capacity. -/
  enqueue : Nat → List (CarrierFeedFrame K F H P) → CarrierFeedFrame K F H P →
    List (CarrierFeedFrame K F H P)
  /-- The answer to a frame that waits for a snapshot. -/
  queued : FeedApply
  /-- The frames `apply` ignores at a cursor, and its answer to them. -/
  stale : UInt64 × UInt64 → CarrierFeedFrame K F H P → Bool
  ignored : FeedApply
  /-- The waiting frames that the replay of a snapshot ignores at a cursor. -/
  skips : UInt64 × UInt64 → Option (UInt64 × UInt64) → CarrierFeedFrame K F H P → Bool

variable {K F H P I R E : Type}

/-- What is relied on of the parts that are not shown: frames at or below the cursor are
ignored, frames above it in its epoch are not, and the queue holds received frames only, in
order while there is room. -/
structure Upstream.Faithful (U : Upstream K F H P I R E) : Prop where
  stale_old : ∀ epoch seq frame, frame.epoch = epoch → frame.seq ≤ seq →
    U.stale (epoch, seq) frame = true
  stale_next : ∀ epoch seq frame, frame.epoch = epoch → seq < frame.seq →
    U.stale (epoch, seq) frame = false
  skips_old : ∀ snapshot epoch seq frame, frame.epoch = epoch → frame.seq ≤ seq →
    U.skips snapshot (some (epoch, seq)) frame = true
  skips_next : ∀ epoch start seq frame, frame.epoch = epoch → start ≤ seq → seq < frame.seq →
    U.skips (epoch, start) (some (epoch, seq)) frame = false
  enqueue_room : ∀ capacity frames frame, frames.length < capacity →
    U.enqueue capacity frames frame = frames ++ [frame]
  enqueue_mem : ∀ capacity frames frame waiting, waiting ∈ U.enqueue capacity frames frame →
    waiting ∈ frames ∨ waiting = frame

/-! ## The replica -/

structure ReplicaManifest (F I : Type) where
  kind : F
  index : I
  deriving DecidableEq

structure ReplicaView (K F I : Type) where
  manifests : FinMap K (ReplicaManifest F I)
  queryable : Bool

/-- `view` and the fields of `ReplicaCursor`. -/
structure CarrierFeedReplica (K F H P I : Type) where
  view : ReplicaView K F I
  synced : Option (UInt64 × UInt64)
  pending : List (CarrierFeedFrame K F H P)
  maxPending : Nat

/-- `ReplicaManifest` as both paths create it. -/
def Upstream.freshManifest (U : Upstream K F H P I R E) (frame : CarrierFeedFrame K F H P) :
    ReplicaManifest F I :=
  ⟨frame.kind, U.new frame.maxPositions⟩

def Upstream.applyOp (U : Upstream K F H P I R E) (manifest : ReplicaManifest F I)
    (frame : CarrierFeedFrame K F H P) : ReplicaManifest F I :=
  let index := U.growTo manifest.index frame.maxPositions
  { manifest with
    index := match frame.op with
      | .insert hashes => U.insert index frame.holder hashes
      | .remove hashes => U.remove index frame.holder hashes
      | .replaceHolder hashes => U.replaceHolder index frame.holder hashes
      | .removeHolder => U.removeHolder index frame.holder }

namespace CarrierFeedReplica

def new (maxPending : Nat) : CarrierFeedReplica K F H P I :=
  ⟨⟨.empty, false⟩, none, [], maxPending⟩

def invalidate (replica : CarrierFeedReplica K F H P I) : CarrierFeedReplica K F H P I :=
  { replica with view := ⟨replica.view.manifests, false⟩ }

def queuePending (U : Upstream K F H P I R E) (replica : CarrierFeedReplica K F H P I)
    (frame : CarrierFeedFrame K F H P) : CarrierFeedReplica K F H P I :=
  if replica.maxPending = 0 then replica
  else { replica with pending := U.enqueue replica.maxPending replica.pending frame }

theorem queuePending_view {U : Upstream K F H P I R E} (replica : CarrierFeedReplica K F H P I)
    (frame : CarrierFeedFrame K F H P) : (replica.queuePending U frame).view = replica.view := by
  unfold queuePending
  split <;> rfl

theorem queuePending_synced {U : Upstream K F H P I R E}
    (replica : CarrierFeedReplica K F H P I) (frame : CarrierFeedFrame K F H P) :
    (replica.queuePending U frame).synced = replica.synced := by
  unfold queuePending
  split <;> rfl

section Apply

variable [DecidableEq K] [DecidableEq F]

/-- `apply_frame` on the published manifests: a manifest that is missing, or of another kind,
is published fresh before the operation runs on it. -/
def applyFrame (U : Upstream K F H P I R E) (manifests : FinMap K (ReplicaManifest F I))
    (frame : CarrierFeedFrame K F H P) : FinMap K (ReplicaManifest F I) :=
  match (manifests.get? frame.manifest).filter fun m => decide (m.kind = frame.kind) with
  | some manifest => manifests.insert frame.manifest (U.applyOp manifest frame)
  | none =>
    let manifest := U.freshManifest frame
    let next := manifests.insert frame.manifest manifest
    next.insert frame.manifest (U.applyOp manifest frame)

/-- `apply`: a gap or another epoch drops the cursor, and what was queryable no longer is. -/
def apply (U : Upstream K F H P I R E) (replica : CarrierFeedReplica K F H P I)
    (frame : CarrierFeedFrame K F H P) : CarrierFeedReplica K F H P I × FeedApply :=
  match replica.synced with
  | none => (replica.queuePending U frame, U.queued)
  | some (epoch, seq) =>
    if frame.epoch ≠ epoch ∨ frame.seq > saturatingSucc seq then
      ({ replica.invalidate with synced := none, pending := [] }.queuePending U frame,
        .needsSnapshot)
    else if U.stale (epoch, seq) frame then (replica, U.ignored)
    else
      ({ replica with
          view := { replica.view with manifests := applyFrame U replica.view.manifests frame }
          synced := some (epoch, frame.seq) }, .applied)

/-- The body of the replay loop on the manifests that are not yet published. -/
def replayFrame (U : Upstream K F H P I R E) (manifests : FinMap K (ReplicaManifest F I))
    (frame : CarrierFeedFrame K F H P) : FinMap K (ReplicaManifest F I) :=
  let manifest := (manifests.get? frame.manifest).getD (U.freshManifest frame)
  let manifest := if manifest.kind ≠ frame.kind then U.freshManifest frame else manifest
  manifests.insert frame.manifest (U.applyOp manifest frame)

/-- The replay loop: the manifests and the cursor once every waiting frame is taken, or the
frames that wait on when one of them does not follow. -/
def replay (U : Upstream K F H P I R E) (snapshot : UInt64 × UInt64) :
    FinMap K (ReplicaManifest F I) → Option (UInt64 × UInt64) →
      List (CarrierFeedFrame K F H P) →
      Except (List (CarrierFeedFrame K F H P))
        (FinMap K (ReplicaManifest F I) × Option (UInt64 × UInt64))
  | manifests, synced, [] => .ok (manifests, synced)
  | manifests, synced, frame :: pending =>
    if U.skips snapshot synced frame then replay U snapshot manifests synced pending
    else
      match synced with
      | none => .error (frame :: pending)
      | some (cursorEpoch, cursorSeq) =>
        if frame.epoch ≠ cursorEpoch ∨ frame.seq ≠ saturatingSucc cursorSeq then
          .error (frame :: pending)
        else
          replay U snapshot (replayFrame U manifests frame) (some (snapshot.1, frame.seq)) pending

/-- The manifests of a snapshot. -/
def snapshotManifests (U : Upstream K F H P I R E) (snapshot : CarrierFeedSnapshot K F H P) :
    FinMap K (ReplicaManifest F I) :=
  .ofList (snapshot.manifests.map fun m => (m.manifest, ⟨m.kind, U.load m⟩))

def installSnapshot (U : Upstream K F H P I R E) (replica : CarrierFeedReplica K F H P I)
    (snapshot : CarrierFeedSnapshot K F H P) :
    CarrierFeedReplica K F H P I × Except E FeedApply :=
  match U.check snapshot with
  | .error e => (replica, .error e)
  | .ok () =>
    let cursor := (snapshot.epoch, snapshot.seq)
    match replay U cursor (snapshotManifests U snapshot) (some cursor) replica.pending with
    | .error pending =>
      ({ replica.invalidate with synced := none, pending }, .ok .needsSnapshot)
    | .ok (manifests, synced) =>
      ({ replica with view := ⟨manifests, true⟩, synced, pending := [] }, .ok .applied)

/-! ## Queries -/

def kind (replica : CarrierFeedReplica K F H P I) (manifest : K) : Option F :=
  (replica.view.manifests.get? manifest).map (·.kind)

def deepest (U : Upstream K F H P I R E) (replica : CarrierFeedReplica K F H P I) (manifest : K)
    (hashes : List P) : Option R :=
  if !replica.view.queryable then none
  else (replica.view.manifests.get? manifest).bind fun entry => U.deepest entry.index hashes

def deepestByHolder (U : Upstream K F H P I R E) (replica : CarrierFeedReplica K F H P I)
    (manifest : K) (hashes : List P) : List (H × P) :=
  if !replica.view.queryable then []
  else ((replica.view.manifests.get? manifest).map fun entry =>
    U.deepestByHolder entry.index hashes).getD []

/-- **The live path and the replay path do the same to the manifests.** -/
theorem applyFrame_eq (U : Upstream K F H P I R E) (manifests : FinMap K (ReplicaManifest F I))
    (frame : CarrierFeedFrame K F H P) :
    applyFrame U manifests frame = replayFrame U manifests frame := by
  unfold applyFrame replayFrame
  cases hm : manifests.get? frame.manifest with
  | none => simp [FinMap.insert_insert, Upstream.freshManifest]
  | some manifest =>
    by_cases hkind : manifest.kind = frame.kind
    · simp [Option.filter_some, hkind]
    · simp [Option.filter_some, hkind, FinMap.insert_insert]

end Apply

end CarrierFeedReplica

/-! ## A plain index -/

/-- An index that lists its holders' hashes, and a queue that drops its oldest frame. -/
def plainUpstream : Upstream Nat Nat Nat Nat (List (Nat × Nat)) Nat Unit where
  new _ := []
  growTo index _ := index
  insert index holder hashes := index ++ hashes.map (holder, ·)
  remove index holder hashes := index.filter fun e => !(e.1 == holder && hashes.contains e.2)
  replaceHolder index holder hashes := index.filter (·.1 != holder) ++ hashes.map (holder, ·)
  removeHolder index holder := index.filter (·.1 != holder)
  deepest index hashes := hashes.reverse.find? fun hash => index.any (·.2 == hash)
  deepestByHolder index hashes := (index.map Prod.fst).eraseDups.filterMap fun holder =>
    (hashes.reverse.find? fun hash => index.contains (holder, hash)).map (holder, ·)
  load m := m.holders.flatMap fun h => h.hashes.map (h.holder, ·)
  check _ := .ok ()
  enqueue capacity frames frame :=
    if frames.length < capacity then frames ++ [frame] else frames.tail ++ [frame]
  queued := .needsSnapshot
  stale cursor frame := decide (frame.epoch = cursor.1 ∧ frame.seq ≤ cursor.2)
  ignored := .other
  skips _ synced frame :=
    synced.any fun cursor => decide (frame.epoch = cursor.1 ∧ frame.seq ≤ cursor.2)

theorem plainUpstream_faithful : plainUpstream.Faithful where
  stale_old _ _ _ hepoch hle := decide_eq_true ⟨hepoch, hle⟩
  stale_next _ _ _ _ hlt := decide_eq_false fun h => UInt64.not_le.2 hlt h.2
  skips_old _ _ _ _ hepoch hle := decide_eq_true ⟨hepoch, hle⟩
  skips_next _ _ _ _ _ _ hlt := decide_eq_false fun h => UInt64.not_le.2 hlt h.2
  enqueue_room _ _ _ hroom := if_pos hroom
  enqueue_mem capacity frames frame waiting h := by
    simp only [plainUpstream] at h
    split at h
    · exact (List.mem_append.1 h).imp id List.mem_singleton.1
    · exact (List.mem_append.1 h).imp List.mem_of_mem_tail List.mem_singleton.1

/-- One holder of three hashes, as a snapshot at the given number of the first epoch. -/
def plainSnapshot (seq : UInt64) : CarrierFeedSnapshot Nat Nat Nat Nat :=
  ⟨1, 1, seq, [⟨1, 7, 8, [⟨5, [10, 11, 12]⟩]⟩]⟩

/-- A frame of the first epoch that inserts one hash. -/
def plainFrame (seq : UInt64) (hash : Nat) : CarrierFeedFrame Nat Nat Nat Nat :=
  ⟨1, 1, seq, 1, 7, 8, 5, .insert [hash]⟩

end ReedCode.CarrierFeed
