import ReedCode.Value

/-!
# Group boundary protocol: rosters, events, prefixes

The data model of `lib/kv-router/src/indexer/group_boundary.rs`: the roster a worker
registers (`GroupSpec`), the engine events (`GroupEvent`), the reasons for which credit is
withheld (`Unavailable`) and the hash chain that names a token path (`Prefix`).

Block hashing is upstream code.  It is a parameter (`BlockHashing`), generic in the hash
type; `BlockHashing.CollisionFree` states what the index relies on.
-/

set_option autoImplicit false

namespace ReedCode.GroupBoundary

structure WorkerWithDpRank where
  workerId : UInt64
  dpRank : Nat
  deriving DecidableEq, Repr

inductive GroupKind where
  | fullAttention
  | mamba
  deriving DecidableEq, Repr

structure GroupSpec where
  groupIdx : Nat
  kind : GroupKind
  blockSize : Nat
  slidingWindow : Option Nat
  deriving DecidableEq, Repr

structure CacheIdentity where
  cacheNamespace : Option String
  loraName : Option String
  deriving DecidableEq, Repr

structure QueryOptions where
  cacheReadsEnabled : Bool
  isEagle : Bool
  hasMultimodal : Bool
  deriving DecidableEq, Repr

def QueryOptions.ordinary : QueryOptions := ⟨true, false, false⟩

structure GroupReuseQuery where
  cacheReadsDeclared : Option Bool
  tokens : Option (List UInt32)
  identity : CacheIdentity
  options : QueryOptions

/-- `GroupEvent::BlockStored`. -/
structure BlockStored where
  blockHashes : List UInt64
  parentBlockHash : Option UInt64
  tokenIds : List UInt32
  blockSize : Nat
  groupIdx : Option Nat
  kvCacheSpecKind : Option GroupKind
  identity : CacheIdentity
  skippedParentBlockHash : Option UInt64
  skippedTokenIds : Option (List UInt32)
  skippedExtraKeys : Option (List (Option Value))
  extraKeys : Option (List (Option Value))
  isEagle : Option Bool
  loraId : Option UInt64
  medium : Option String
  locality : Option String
  ownership : Option String
  blockMmInfos : Option Value
  deriving DecidableEq

/-- `GroupEvent::BlockRemoved`. -/
structure BlockRemoved where
  blockHashes : List UInt64
  groupIdx : Option Nat
  medium : Option String
  locality : Option String
  ownership : Option String
  deriving DecidableEq

inductive GroupEvent where
  | blockStored (e : BlockStored)
  | blockRemoved (e : BlockRemoved)
  | allBlocksCleared (ownership : Option String)
  deriving DecidableEq

inductive Unavailable where
  | noManifest
  | wrongGeneration
  | sequenceGap
  | invalidManifest
  | unsupportedMetadata
  | missingParent
  | invalidSpan
  | conflictingIdentity
  | ancestryLimit
  deriving DecidableEq, Repr

inductive ReuseBoundary where
  | denseOnly
  | available (tokens : Nat)
  | unavailable (reason : Unavailable)
  deriving DecidableEq, Repr

/-- The roster check of `register`: nonempty, positive block sizes, no sliding window,
unique group indices. -/
def validRoster (specs : List GroupSpec) : Bool :=
  !specs.isEmpty && specs.all (fun g => decide (0 < g.blockSize) && g.slidingWindow.isNone) &&
    decide (specs.map (·.groupIdx)).Nodup

def hasMamba (specs : List GroupSpec) : Bool := specs.any fun g => g.kind == .mamba

theorem validRoster_iff {specs : List GroupSpec} : validRoster specs = true ↔
    specs ≠ [] ∧ (∀ g ∈ specs, 0 < g.blockSize ∧ g.slidingWindow = none) ∧
      (specs.map (·.groupIdx)).Nodup := by
  simp [validRoster, and_assoc]

theorem hasMamba_iff {specs : List GroupSpec} :
    hasMamba specs = true ↔ ∃ g ∈ specs, g.kind = .mamba := by
  simp [hasMamba]

/-! ## Prefixes -/

/-- The upstream hash functions.  `H` is the type of local and of sequence hashes. -/
structure BlockHashing (H : Type) where
  computeBlockHashForSeq : List UInt32 → Nat → CacheIdentity → List H
  computeNextSeqHash : H → H → H

/-- A token path, named by its length and the chained hash of its blocks. -/
structure Prefix (H : Type) where
  endAt : Nat
  sequence : H
  deriving DecidableEq, Repr

variable {H : Type}

/-- The closure of `prefixes`, run along the local block hashes. -/
def prefixesFrom (U : BlockHashing H) (blockSize : Nat) :
    Option (Prefix H) → List H → List (Prefix H)
  | _, [] => []
  | previous, hash :: hashes =>
    let prefix' : Prefix H :=
      { endAt := (previous.elim 0 (·.endAt)) + blockSize
        sequence := previous.elim hash fun p => U.computeNextSeqHash p.sequence hash }
    prefix' :: prefixesFrom U blockSize (some prefix') hashes

def prefixes (U : BlockHashing H) (tokens : List UInt32) (blockSize : Nat)
    (identity : CacheIdentity) (previous : Option (Prefix H)) : List (Prefix H) :=
  prefixesFrom U blockSize previous (U.computeBlockHashForSeq tokens blockSize identity)

/-- The prefix naming a whole path (`none` for a path shorter than one block). -/
def pathPrefix (U : BlockHashing H) (blockSize : Nat) (identity : CacheIdentity)
    (path : List UInt32) : Option (Prefix H) :=
  (prefixes U path blockSize identity none).getLast?

/-- What the index relies on of the upstream hashes: one local hash for each full block,
computed from that block alone, and no two paths of one identity share a prefix. -/
structure BlockHashing.CollisionFree (U : BlockHashing H) : Prop where
  length_hashes : ∀ tokens bs identity, 0 < bs →
    (U.computeBlockHashForSeq tokens bs identity).length = tokens.length / bs
  hashes_append : ∀ xs ys bs identity, 0 < bs → bs ∣ xs.length →
    U.computeBlockHashForSeq (xs ++ ys) bs identity =
      U.computeBlockHashForSeq xs bs identity ++ U.computeBlockHashForSeq ys bs identity
  prefix_injective : ∀ xs ys bs identity p, 0 < bs → bs ∣ xs.length → bs ∣ ys.length →
    pathPrefix U bs identity xs = some p → pathPrefix U bs identity ys = some p → xs = ys

/-! ### The prefix list -/

theorem length_prefixesFrom (U : BlockHashing H) (bs : Nat) :
    ∀ (previous : Option (Prefix H)) (hashes : List H),
      (prefixesFrom U bs previous hashes).length = hashes.length
  | _, [] => rfl
  | _, _ :: hashes => by simp [prefixesFrom, length_prefixesFrom U bs _ hashes]

/-- A chain continues from the last prefix of what came before. -/
theorem prefixesFrom_append (U : BlockHashing H) (bs : Nat) :
    ∀ (previous : Option (Prefix H)) (xs ys : List H),
      prefixesFrom U bs previous (xs ++ ys) = prefixesFrom U bs previous xs ++
        prefixesFrom U bs ((prefixesFrom U bs previous xs).getLast?.or previous) ys
  | _, [], _ => by simp [prefixesFrom]
  | previous, x :: xs, ys => by
    simp only [List.cons_append, prefixesFrom, prefixesFrom_append U bs _ xs ys]
    congr 2
    rw [List.getLast?_cons]
    cases (prefixesFrom U bs _ xs).getLast? <;> rfl

variable {U : BlockHashing H}

theorem length_prefixes (hU : U.CollisionFree) {tokens : List UInt32} {bs : Nat}
    {identity : CacheIdentity} {previous : Option (Prefix H)} (hbs : 0 < bs) :
    (prefixes U tokens bs identity previous).length = tokens.length / bs := by
  rw [prefixes, length_prefixesFrom, hU.length_hashes _ _ _ hbs]

theorem prefixes_append (hU : U.CollisionFree) {xs ys : List UInt32} {bs : Nat}
    {identity : CacheIdentity} {previous : Option (Prefix H)} (hbs : 0 < bs)
    (hx : bs ∣ xs.length) :
    prefixes U (xs ++ ys) bs identity previous = prefixes U xs bs identity previous ++
      prefixes U ys bs identity ((prefixes U xs bs identity previous).getLast?.or previous) := by
  rw [prefixes, hU.hashes_append _ _ _ _ hbs hx, prefixesFrom_append]
  rfl

theorem prefixes_nil (hU : U.CollisionFree) {bs : Nat} {identity : CacheIdentity}
    {previous : Option (Prefix H)} (hbs : 0 < bs) : prefixes U [] bs identity previous = [] :=
  List.eq_nil_of_length_eq_zero (by rw [length_prefixes hU hbs]; simp)

/-- Prefixes that continue a path are the later prefixes of the longer path. -/
theorem prefixes_of_path (hU : U.CollisionFree) {path tokens : List UInt32} {bs : Nat}
    {identity : CacheIdentity} (hbs : 0 < bs) (hp : bs ∣ path.length) :
    prefixes U (path ++ tokens) bs identity none = prefixes U path bs identity none ++
      prefixes U tokens bs identity (pathPrefix U bs identity path) := by
  rw [prefixes_append hU hbs hp, Option.or_none]
  rfl

theorem pathPrefix_nil (hU : U.CollisionFree) {bs : Nat} {identity : CacheIdentity}
    (hbs : 0 < bs) : pathPrefix U bs identity [] = none := by
  rw [pathPrefix, prefixes_nil hU hbs]
  rfl

/-- The `i`-th prefix (from zero) names the first `i + 1` blocks. -/
theorem getElem?_prefixes (hU : U.CollisionFree) {tokens : List UInt32} {bs : Nat}
    {identity : CacheIdentity} (hbs : 0 < bs) {i : Nat} (hi : i < tokens.length / bs) :
    (prefixes U tokens bs identity none)[i]? =
      pathPrefix U bs identity (tokens.take ((i + 1) * bs)) := by
  have hle : (i + 1) * bs ≤ tokens.length :=
    (Nat.mul_le_mul_right bs hi).trans (Nat.div_mul_le_self _ _)
  have hlen : (tokens.take ((i + 1) * bs)).length = (i + 1) * bs := by
    rw [List.length_take]; omega
  have hsplit : prefixes U (tokens.take ((i + 1) * bs) ++ tokens.drop ((i + 1) * bs)) bs identity
      none = _ := prefixes_of_path hU hbs (by rw [hlen]; exact Nat.dvd_mul_left bs (i + 1))
  have hcount : (prefixes U (tokens.take ((i + 1) * bs)) bs identity none).length = i + 1 := by
    rw [length_prefixes hU hbs, hlen, Nat.mul_div_cancel _ hbs]
  rw [List.take_append_drop] at hsplit
  rw [hsplit, List.getElem?_append_left (by omega), pathPrefix, List.getLast?_eq_getElem?, hcount]
  rfl

theorem pathPrefix_isSome (hU : U.CollisionFree) {path : List UInt32} {bs : Nat}
    {identity : CacheIdentity} (hbs : 0 < bs) (hle : bs ≤ path.length) :
    (pathPrefix U bs identity path).isSome := by
  rw [pathPrefix, List.getLast?_isSome, ← List.length_pos_iff, length_prefixes hU hbs]
  exact Nat.div_pos hle hbs

/-- Chaining adds one block to `endAt` at each step. -/
theorem endAt_prefixesFrom (U : BlockHashing H) (bs : Nat) :
    ∀ (previous : Option (Prefix H)) (hashes : List H) (i : Nat) (p : Prefix H),
      (prefixesFrom U bs previous hashes)[i]? = some p →
        p.endAt = previous.elim 0 (·.endAt) + (i + 1) * bs
  | _, [], _, _, h => by simp [prefixesFrom] at h
  | previous, hash :: hashes, 0, p, h => by
    simp only [prefixesFrom, List.getElem?_cons_zero, Option.some.injEq] at h
    rw [← h]
    simp
  | previous, hash :: hashes, i + 1, p, h => by
    simp only [prefixesFrom, List.getElem?_cons_succ] at h
    rw [endAt_prefixesFrom U bs _ hashes i p h]
    simp only [Option.elim_some, Nat.add_mul]
    omega

theorem endAt_pathPrefix (hU : U.CollisionFree) {path : List UInt32} {bs : Nat}
    {identity : CacheIdentity} {p : Prefix H} (hbs : 0 < bs) (hp : bs ∣ path.length)
    (h : pathPrefix U bs identity path = some p) : p.endAt = path.length := by
  obtain ⟨k, hk⟩ := hp
  rw [pathPrefix, List.getLast?_eq_getElem?, length_prefixes hU hbs, hk,
    Nat.mul_div_cancel_left _ hbs] at h
  have hk0 : 0 < k := by
    rcases Nat.eq_zero_or_pos k with rfl | h0
    · rw [Nat.mul_zero] at hk
      rw [List.eq_nil_of_length_eq_zero hk, prefixes_nil hU hbs] at h
      simp at h
    · exact h0
  have := endAt_prefixesFrom U bs none _ (k - 1) p h
  rw [this, hk, Option.elim_none, Nat.sub_add_cancel hk0, Nat.mul_comm]
  omega

/-- The prefix of the next block of a chain names the path extended by that block. -/
theorem prefixes_step (hU : U.CollisionFree) {bs : Nat} (hbs : 0 < bs) {identity : CacheIdentity}
    {path tokens : List UInt32} (hd : bs ∣ path.length) (hle : bs ≤ tokens.length) :
    ∃ p, pathPrefix U bs identity (path ++ tokens.take bs) = some p ∧
      prefixes U tokens bs identity (pathPrefix U bs identity path) =
        p :: prefixes U (tokens.drop bs) bs identity (some p) := by
  have htake : (tokens.take bs).length = bs := by rw [List.length_take]; omega
  have hsplit : prefixes U (tokens.take bs ++ tokens.drop bs) bs identity
      (pathPrefix U bs identity path) = _ := prefixes_append hU hbs ⟨1, by rw [htake, Nat.mul_one]⟩
  rw [List.take_append_drop] at hsplit
  obtain ⟨p, hp⟩ : ∃ p, prefixes U (tokens.take bs) bs identity (pathPrefix U bs identity path) =
      [p] := by
    rw [← List.length_eq_one_iff, length_prefixes hU hbs, htake, Nat.div_self hbs]
  refine ⟨p, ?_, ?_⟩
  · rw [pathPrefix, prefixes_of_path hU hbs hd, hp]
    simp
  · rw [hsplit, hp]
    rfl

/-! ### A collision-free hashing -/

/-- Blocks stand for themselves and a chain is the path it names. -/
def plainHashing : BlockHashing (List UInt32) where
  computeBlockHashForSeq tokens bs _ :=
    (List.range (tokens.length / bs)).map fun i => (tokens.drop (i * bs)).take bs
  computeNextSeqHash parent block := parent ++ block

theorem plainHashing_sequence {bs : Nat} :
    ∀ {previous : Option (Prefix (List UInt32))} {hashes : List (List UInt32)}
      {p : Prefix (List UInt32)},
      (prefixesFrom plainHashing bs previous hashes).getLast? = some p →
        p.sequence = (previous.elim [] (·.sequence)) ++ hashes.flatten
  | _, [], p, h => by simp [prefixesFrom] at h
  | previous, hash :: hashes, p, h => by
    have hhead : previous.elim hash (fun q => plainHashing.computeNextSeqHash q.sequence hash) =
        previous.elim [] (·.sequence) ++ hash := by
      cases previous <;> rfl
    simp only [prefixesFrom, List.getLast?_cons, Option.some.injEq] at h
    rw [List.flatten_cons, ← List.append_assoc, ← hhead]
    cases hl : (prefixesFrom plainHashing bs (some ⟨_, _⟩) hashes).getLast? with
    | none =>
      rw [hl] at h
      have hnil : hashes = [] := by
        rw [List.getLast?_eq_none_iff] at hl
        rw [← List.length_eq_zero_iff, ← length_prefixesFrom plainHashing bs, hl, List.length_nil]
      rw [← h, hnil]
      simp
    | some q =>
      rw [hl] at h
      rw [← h]
      exact plainHashing_sequence hl

theorem flatten_blocks {bs : Nat} (tokens : List UInt32) : ∀ n : Nat,
    ((List.range n).map fun i => (tokens.drop (i * bs)).take bs).flatten = tokens.take (n * bs)
  | 0 => by simp
  | n + 1 => by
    rw [List.range_succ, List.map_append, List.flatten_append, flatten_blocks tokens n,
      Nat.add_mul, List.take_add]
    simp

theorem plainHashing_collisionFree : plainHashing.CollisionFree where
  length_hashes tokens bs _ _ := by simp [plainHashing]
  hashes_append xs ys bs _ hbs hx := by
    obtain ⟨k, hk⟩ := hx
    have hdiv : (xs ++ ys).length / bs = k + ys.length / bs := by
      rw [List.length_append, hk, Nat.mul_add_div hbs]
    simp only [plainHashing, hdiv, hk, Nat.mul_div_cancel_left _ hbs, List.range_add,
      List.map_append, List.map_map]
    congr 1
    · refine List.map_congr_left fun i hi => ?_
      have hle : i * bs + bs ≤ xs.length := by
        have := Nat.mul_le_mul_right bs (List.mem_range.1 hi)
        rw [hk, Nat.mul_comm bs k]
        rwa [Nat.succ_mul] at this
      rw [List.drop_append_of_le_length (by omega), List.take_append_of_le_length]
      rw [List.length_drop]
      omega
    · refine List.map_congr_left fun i _ => ?_
      have : (k + i) * bs = xs.length + i * bs := by rw [hk, Nat.add_mul, Nat.mul_comm bs k]
      rw [Function.comp_apply, this, List.drop_append, List.drop_eq_nil_of_le (Nat.le_add_right _ _),
        Nat.add_sub_cancel_left, List.nil_append]
  prefix_injective xs ys bs _ p hbs hx hy hp hq := by
    have path : ∀ zs : List UInt32, bs ∣ zs.length →
        pathPrefix plainHashing bs ⟨none, none⟩ zs = some p → p.sequence = zs := by
      intro zs hz h
      have := plainHashing_sequence h
      simp only [plainHashing, flatten_blocks, Option.elim_none, List.nil_append] at this
      rw [this, Nat.div_mul_cancel hz, List.take_length]
    rw [← path xs hx hp, ← path ys hy hq]

end ReedCode.GroupBoundary
