import ReedCode.GroupBoundary.Residency
import Mathlib.Order.Bounds.Basic

/-!
# Lookup is exact

`Reusable` states what a boundary of a query must satisfy: it lies strictly inside the
query, every attention group holds every block up to it, and every recurrent group holds
the block that ends there.

* `Tracks.live_iff` — a live prefix is a resident path (collision-freeness);
* `mem_groupEnds_iff` — the loop over one group collects exactly its reusable ends;
* `lookup_exact` — in every run, lookup of an available worker with a valid hybrid roster
  answers the largest reusable boundary, or `0` when there is none.
-/

set_option autoImplicit false

namespace ReedCode.GroupBoundary

variable {H : Type} [DecidableEq H] {U : BlockHashing H}

/-- The boundary condition of one group. -/
def GroupReusable (l : Ledger) (spec : GroupSpec) (identity : CacheIdentity)
    (tokens : List UInt32) (e : Nat) : Prop :=
  match spec.kind with
  | .fullAttention => spec.blockSize ∣ e ∧
      ∀ b, 0 < b → b ≤ e → spec.blockSize ∣ b → l.Resident identity (tokens.take b)
  | .mamba => l.Resident identity (tokens.take e)

/-- A boundary that every group of the roster can reuse, strictly inside the query. -/
structure Reusable (history : List GroupEvent) (specs : List GroupSpec)
    (identity : CacheIdentity) (tokens : List UInt32) (e : Nat) : Prop where
  inside : e < tokens.length
  groups : ∀ spec ∈ specs, GroupReusable (ledger spec.groupIdx history) spec identity tokens e

/-! ## One group -/

/-- Live prefixes are resident paths. -/
theorem Tracks.live_iff {bs : Nat} {g : GroupState H} {l : Ledger} (ht : Tracks U bs g l)
    (hU : U.CollisionFree) (hbs : 0 < bs) {identity : CacheIdentity} {path : List UInt32}
    {p : Prefix H} (hd : bs ∣ path.length) (hp : pathPrefix U bs identity path = some p) :
    g.live.contains (identity, p) = true ↔ l.Resident identity path := by
  rw [ht.live.contains_iff]
  constructor
  · rintro ⟨hash, hres⟩
    rw [ht.resident] at hres
    split at hres
    · rename_i hst
      rw [ht.ancestry] at hres
      obtain ⟨path', hdec, hp'⟩ := Option.bind_eq_some_iff.1 hres
      have : path' = path :=
        hU.prefix_injective _ _ bs identity p hbs (ht.path_ok _ _ _ hdec).1 hd hp' hp
      exact ⟨hash, hst, this ▸ hdec⟩
    · cases hres
  · rintro ⟨hash, hst, hdec⟩
    refine ⟨hash, ?_⟩
    rw [ht.resident, if_pos hst, ht.ancestry, hdec, Option.bind_some, hp]

/-- A path with a resident block is a positive number of whole blocks. -/
theorem Tracks.resident_length {bs : Nat} {g : GroupState H} {l : Ledger} (ht : Tracks U bs g l)
    (hU : U.CollisionFree) (hbs : 0 < bs) {identity : CacheIdentity} {path : List UInt32}
    (hr : l.Resident identity path) : bs ∣ path.length ∧ 0 < path.length := by
  obtain ⟨hash, -, hdec⟩ := hr
  obtain ⟨hd, hsome⟩ := ht.path_ok _ _ _ hdec
  refine ⟨hd, List.length_pos_iff.2 ?_⟩
  rintro rfl
  simp [pathPrefix_nil hU hbs] at hsome

/-- What the loop over the prefixes of a group collects. -/
theorem mem_groupEnds {g : GroupState H} {kind : GroupKind} {identity : CacheIdentity}
    {limit e : Nat} : ∀ {ps : List (Prefix H)}, ps.Pairwise (fun p q : Prefix H => p.endAt < q.endAt) →
      (e ∈ GroupBoundaryIndex.groupEnds g kind identity limit ps ↔
        ∃ (i : Nat) (p : Prefix H), ps[i]? = some p ∧ p.endAt = e ∧ e < limit ∧
          g.live.contains (identity, p) = true ∧
          (kind = .fullAttention → ∀ (j : Nat) (q : Prefix H), j < i → ps[j]? = some q →
            g.live.contains (identity, q) = true))
  | [], _ => by simp [GroupBoundaryIndex.groupEnds]
  | p :: ps, hinc => by
    obtain ⟨hlt, hinc'⟩ := List.pairwise_cons.1 hinc
    have ih : e ∈ GroupBoundaryIndex.groupEnds g kind identity limit ps ↔ _ := mem_groupEnds hinc'
    rw [GroupBoundaryIndex.groupEnds]
    split
    · -- past the limit: no later prefix is below it either
      rename_i hlim
      refine ⟨fun h => (List.not_mem_nil h).elim, ?_⟩
      rintro ⟨i, q, hq, rfl, hqlim, -⟩
      have : p.endAt ≤ q.endAt := by
        cases i with
        | zero => cases hq; exact Nat.le_refl _
        | succ i => exact Nat.le_of_lt (hlt q (List.mem_of_getElem? hq))
      omega
    rename_i hlim
    have htail : ∀ (hfirst : kind = .fullAttention → g.live.contains (identity, p) = true),
        (∃ (i : Nat) (q : Prefix H), ps[i]? = some q ∧ q.endAt = e ∧ e < limit ∧
          g.live.contains (identity, q) = true ∧
          (kind = .fullAttention → ∀ (j : Nat) (r : Prefix H), j < i → ps[j]? = some r →
            g.live.contains (identity, r) = true)) →
        ∃ (i : Nat) (q : Prefix H), (p :: ps)[i]? = some q ∧ q.endAt = e ∧ e < limit ∧
          g.live.contains (identity, q) = true ∧
          (kind = .fullAttention → ∀ (j : Nat) (r : Prefix H), j < i → (p :: ps)[j]? = some r →
            g.live.contains (identity, r) = true) := by
      rintro hfirst ⟨i, q, hq, he, hl, hc, hall⟩
      refine ⟨i + 1, q, hq, he, hl, hc, fun hk j r hj hr => ?_⟩
      cases j with
      | zero => cases hr; exact hfirst hk
      | succ j => exact hall hk j r (by omega) hr
    have hshift : ∀ (i : Nat) (q : Prefix H), (p :: ps)[i + 1]? = some q → q.endAt = e → e < limit →
        g.live.contains (identity, q) = true →
        (kind = .fullAttention → ∀ (j : Nat) (r : Prefix H), j < i + 1 → (p :: ps)[j]? = some r →
          g.live.contains (identity, r) = true) →
        e ∈ GroupBoundaryIndex.groupEnds g kind identity limit ps := by
      intro i q hq he hl hc hall
      exact ih.2 ⟨i, q, hq, he, hl, hc, fun hk j r hj hr => hall hk (j + 1) r (by omega) hr⟩
    split
    · -- a live prefix is collected
      rename_i hlive
      rw [List.mem_cons]
      constructor
      · rintro (rfl | h)
        · exact ⟨0, p, rfl, rfl, by omega, hlive, fun _ j _ hj => absurd hj (Nat.not_lt_zero j)⟩
        · exact htail (fun _ => hlive) (ih.1 h)
      · rintro ⟨i, q, hq, he, hl, hc, hall⟩
        cases i with
        | zero => cases hq; exact Or.inl he.symm
        | succ i => exact Or.inr (hshift i q hq he hl hc hall)
    rename_i hdead
    split
    · -- an attention group stops at its first missing block
      rename_i hkind
      refine ⟨fun h => (List.not_mem_nil h).elim, ?_⟩
      rintro ⟨i, q, hq, -, -, hc, hall⟩
      cases i with
      | zero => cases hq; exact absurd hc hdead
      | succ i => exact absurd (hall hkind 0 p (by omega) rfl) hdead
    · rename_i hkind
      refine ⟨fun h => htail (fun hk => absurd hk hkind) (ih.1 h), ?_⟩
      rintro ⟨i, q, hq, he, hl, hc, hall⟩
      cases i with
      | zero => cases hq; exact absurd hc hdead
      | succ i => exact hshift i q hq he hl hc hall

omit [DecidableEq H] in
theorem pairwise_endAt_prefixes (U : BlockHashing H) {tokens : List UInt32} {bs : Nat}
    (hbs : 0 < bs) {identity : CacheIdentity} :
    (prefixes U tokens bs identity none).Pairwise fun p q => p.endAt < q.endAt := by
  rw [List.pairwise_iff_getElem]
  intro i j hi hj hij
  have hend : ∀ k (hk : k < (prefixes U tokens bs identity none).length),
      (prefixes U tokens bs identity none)[k].endAt = (k + 1) * bs := fun k hk => by
    simpa using endAt_prefixesFrom U bs none _ k _ (List.getElem?_eq_getElem hk)
  rw [hend i hi, hend j hj]
  exact Nat.mul_lt_mul_of_pos_right (by omega) hbs

/-- **The ends of one group are its reusable boundaries inside the query.** -/
theorem mem_groupEnds_iff (hU : U.CollisionFree) {spec : GroupSpec} (hbs : 0 < spec.blockSize)
    {g : GroupState H} {l : Ledger} (ht : Tracks U spec.blockSize g l)
    {identity : CacheIdentity} {tokens : List UInt32} {e : Nat} :
    e ∈ GroupBoundaryIndex.groupEnds g spec.kind identity tokens.length
        (prefixes U tokens spec.blockSize identity none) ↔
      0 < e ∧ e < tokens.length ∧ GroupReusable l spec identity tokens e := by
  -- the prefix at index `i` names the first `i + 1` blocks and is live iff they are resident
  have hat : ∀ i p, (prefixes U tokens spec.blockSize identity none)[i]? = some p →
      p.endAt = (i + 1) * spec.blockSize ∧ (g.live.contains (identity, p) = true ↔
        l.Resident identity (tokens.take ((i + 1) * spec.blockSize))) := by
    intro i p hp
    have hi : i < tokens.length / spec.blockSize := by
      rw [← length_prefixes hU hbs]
      exact (List.getElem?_eq_some_iff.1 hp).1
    have hle : (i + 1) * spec.blockSize ≤ tokens.length :=
      (Nat.mul_le_mul_right _ hi).trans (Nat.div_mul_le_self _ _)
    have hd : spec.blockSize ∣ (tokens.take ((i + 1) * spec.blockSize)).length := by
      rw [List.length_take, Nat.min_eq_left hle]
      exact Nat.dvd_mul_left _ _
    rw [getElem?_prefixes hU hbs hi] at hp
    refine ⟨?_, ht.live_iff hU hbs hd hp⟩
    rw [endAt_pathPrefix hU hbs hd hp, List.length_take, Nat.min_eq_left hle]
  have hex : ∀ k, (k + 1) * spec.blockSize < tokens.length →
      ∃ p, (prefixes U tokens spec.blockSize identity none)[k]? = some p := by
    intro k hk
    have hlt : k < (prefixes U tokens spec.blockSize identity none).length := by
      rw [length_prefixes hU hbs]
      exact (Nat.le_div_iff_mul_le hbs).2 (Nat.le_of_lt hk)
    exact ⟨_, List.getElem?_eq_getElem hlt⟩
  rw [mem_groupEnds (pairwise_endAt_prefixes U hbs)]
  unfold GroupReusable
  constructor
  · rintro ⟨i, p, hp, rfl, hlim, hlive, hall⟩
    obtain ⟨hend, hres⟩ := hat i p hp
    have hpos : 0 < p.endAt := by rw [hend]; exact Nat.mul_pos (Nat.succ_pos i) hbs
    refine ⟨hpos, hlim, ?_⟩
    split
    · rename_i hkind
      refine ⟨hend ▸ Nat.dvd_mul_left _ _, fun b hb hbe hbd => ?_⟩
      obtain ⟨m, rfl⟩ := hbd
      obtain ⟨k, rfl⟩ : ∃ k, m = k + 1 := by
        rcases m with - | k
        · simp at hb
        · exact ⟨k, rfl⟩
      rw [Nat.mul_comm] at hbe ⊢
      have hki : k + 1 ≤ i + 1 := Nat.le_of_mul_le_mul_right (hend ▸ hbe) hbs
      rcases Nat.lt_or_ge k i with hk | hk
      · obtain ⟨q, hq⟩ := hex k (by omega)
        exact (hat k q hq).2.1 (hall hkind k q hk hq)
      · have : k = i := by omega
        exact this ▸ hres.1 hlive
    · exact hend ▸ hres.1 hlive
  · rintro ⟨hpos, hlim, hreuse⟩
    have hd : spec.blockSize ∣ e := by
      split at hreuse
      · exact hreuse.1
      · have := (ht.resident_length hU hbs hreuse).1
        rwa [List.length_take, Nat.min_eq_left (Nat.le_of_lt hlim)] at this
    obtain ⟨m, rfl⟩ := hd
    obtain ⟨i, rfl⟩ : ∃ i, m = i + 1 := by
      rcases m with - | i
      · simp at hpos
      · exact ⟨i, rfl⟩
    rw [Nat.mul_comm] at hpos hlim hreuse ⊢
    obtain ⟨p, hp⟩ := hex i hlim
    obtain ⟨hend, hres⟩ := hat i p hp
    refine ⟨i, p, hp, hend, hlim, hres.2 ?_, fun hkind j q hj hq => ?_⟩
    · split at hreuse
      · exact hreuse.2 _ hpos (Nat.le_refl _) (Nat.dvd_mul_left _ _)
      · exact hreuse
    · rw [hkind] at hreuse
      refine (hat j q hq).2.2 (hreuse.2 _ (Nat.mul_pos (Nat.succ_pos j) hbs) ?_
        (Nat.dvd_mul_left _ _))
      exact Nat.mul_le_mul_right _ (by omega)

/-! ## All groups -/

theorem mem_allowedEnds (groups : FinMap Nat (GroupState H)) (tokens : List UInt32)
    (identity : CacheIdentity) : ∀ (specs : List GroupSpec) (current : List Nat),
      (∀ spec ∈ specs, (groups.get? spec.groupIdx).isSome) →
      ∃ allowed, GroupBoundaryIndex.allowedEnds U groups tokens identity (some current) specs =
          some (some allowed) ∧
        ∀ e, e ∈ allowed ↔ e ∈ current ∧ ∀ spec ∈ specs, ∀ g,
          groups.get? spec.groupIdx = some g → e ∈ GroupBoundaryIndex.groupEnds g spec.kind
            identity tokens.length (prefixes U tokens spec.blockSize identity none)
  | [], current, _ => ⟨current, rfl, by simp⟩
  | spec :: specs, current, h => by
    obtain ⟨g, hg⟩ := Option.isSome_iff_exists.1 (h spec List.mem_cons_self)
    obtain ⟨allowed, hallowed, hmem⟩ := mem_allowedEnds groups tokens identity specs
      (current.filter ((GroupBoundaryIndex.groupEnds g spec.kind identity tokens.length
        (prefixes U tokens spec.blockSize identity none)).contains ·))
      fun s hs => h s (List.mem_cons_of_mem _ hs)
    refine ⟨allowed, by rw [GroupBoundaryIndex.allowedEnds, hg]; exact hallowed, fun e => ?_⟩
    rw [hmem, List.mem_filter, List.contains_iff_mem, List.forall_mem_cons, and_assoc]
    refine and_congr_right fun _ => and_congr_left fun _ => ?_
    simp [hg]

/-- What the outer loop returns on a nonempty roster whose groups are all present. -/
theorem allowedEnds_eq {groups : FinMap Nat (GroupState H)} (tokens : List UInt32)
    (identity : CacheIdentity) {specs : List GroupSpec} (hne : specs ≠ [])
    (h : ∀ spec ∈ specs, (groups.get? spec.groupIdx).isSome) :
    ∃ allowed, GroupBoundaryIndex.allowedEnds U groups tokens identity none specs =
        some (some allowed) ∧
      ∀ e, e ∈ allowed ↔ ∀ spec ∈ specs, ∀ g, groups.get? spec.groupIdx = some g →
        e ∈ GroupBoundaryIndex.groupEnds g spec.kind identity tokens.length
          (prefixes U tokens spec.blockSize identity none) := by
  obtain ⟨spec, specs, rfl⟩ := List.exists_cons_of_ne_nil hne
  obtain ⟨g, hg⟩ := Option.isSome_iff_exists.1 (h spec List.mem_cons_self)
  obtain ⟨allowed, hallowed, hmem⟩ := mem_allowedEnds (U := U) groups tokens identity specs
    (GroupBoundaryIndex.groupEnds g spec.kind identity tokens.length
        (prefixes U tokens spec.blockSize identity none))
    fun s hs => h s (List.mem_cons_of_mem _ hs)
  refine ⟨allowed, by rw [GroupBoundaryIndex.allowedEnds, hg]; exact hallowed, fun e => ?_⟩
  rw [hmem, List.forall_mem_cons]
  refine and_congr_left fun _ => ?_
  simp [hg]

/-- The boundaries the outer loop allows are the reusable ones. -/
theorem mem_allowedEnds_iff (hU : U.CollisionFree) {state : WorkerState H}
    {history : List GroupEvent} (tokens : List UInt32) (identity : CacheIdentity)
    (hv : validRoster state.specs = true) (hok : OnLedgers U state history) :
    ∃ allowed, GroupBoundaryIndex.allowedEnds U state.groups tokens identity none state.specs =
        some (some allowed) ∧
      ∀ e, e ∈ allowed ↔ 0 < e ∧ Reusable history state.specs identity tokens e := by
  obtain ⟨hne, hpos, -⟩ := validRoster_iff.1 hv
  obtain ⟨allowed, hallowed, hmem⟩ := allowedEnds_eq (U := U) tokens identity hne fun spec hspec => by
      obtain ⟨g, hg, -⟩ := hok spec hspec
      rw [hg]; rfl
  refine ⟨allowed, hallowed, fun e => ?_⟩
  have hgroup : ∀ spec ∈ state.specs, ((∀ g, state.groups.get? spec.groupIdx = some g →
      e ∈ GroupBoundaryIndex.groupEnds g spec.kind identity tokens.length
        (prefixes U tokens spec.blockSize identity none)) ↔
      0 < e ∧ e < tokens.length ∧
        GroupReusable (ledger spec.groupIdx history) spec identity tokens e) := by
    intro spec hspec
    obtain ⟨g, hg, ht⟩ := hok spec hspec
    rw [← mem_groupEnds_iff hU (hpos spec hspec).1 ht]
    constructor
    · exact fun h => h g hg
    · intro h g' hg'
      rw [hg, Option.some.injEq] at hg'
      exact hg' ▸ h
  rw [hmem, forall₂_congr hgroup]
  constructor
  · intro h
    obtain ⟨spec, hspec⟩ := List.exists_mem_of_ne_nil _ hne
    exact ⟨(h spec hspec).1, (h spec hspec).2.1, fun s hs => (h s hs).2.2⟩
  · rintro ⟨he, hr⟩ spec hspec
    exact ⟨he, hr.inside, hr.groups spec hspec⟩

/-- What an answer with credit says about the worker: it is registered under this generation,
a dense answer means a roster without recurrent groups, a positive one an available worker. -/
theorem lookup_credit {index : GroupBoundaryIndex H} {w : WorkerWithDpRank} {generation : UInt64}
    {tokens : List UInt32} {identity : CacheIdentity} {options : QueryOptions}
    {boundary : ReuseBoundary}
    (h : index.lookup U w generation tokens identity options = some boundary)
    (hb : boundary = .denseOnly ∨ ∃ e, 0 < e ∧ boundary = .available e) :
    ∃ state, index.workers.get? w = some state ∧ state.generation = generation ∧
      state.unavailable ≠ some .invalidManifest ∧
      (hasMamba state.specs = true → state.unavailable = none) := by
  unfold GroupBoundaryIndex.lookup at h
  split at h
  · cases h
    rcases hb with hb | ⟨e, he, hb⟩
    · cases hb
    · cases hb; exact absurd he (Nat.lt_irrefl 0)
  split at h
  · cases h
    rcases hb with hb | ⟨e, -, hb⟩ <;> cases hb
  split at h
  · cases h
    rcases hb with hb | ⟨e, -, hb⟩ <;> cases hb
  rename_i state hw
  split at h
  · cases h
    rcases hb with hb | ⟨e, -, hb⟩ <;> cases hb
  rename_i hgen
  refine ⟨state, hw, Classical.not_not.1 hgen, ?_⟩
  split at h
  · -- the dense path
    rename_i hdense
    simp only [Bool.and_eq_true, Bool.not_eq_true', decide_eq_true_eq] at hdense
    exact ⟨hdense.2, fun hm => by rw [hdense.1.2] at hm; cases hm⟩
  split at h
  · cases h
    rcases hb with hb | ⟨e, -, hb⟩ <;> cases hb
  · rename_i hun
    exact ⟨by rw [hun]; simp, fun _ => hun⟩

/-- No boundary at zero is reusable by a recurrent group. -/
theorem Reusable.pos (hU : U.CollisionFree) {state : WorkerState H} {history : List GroupEvent}
    {tokens : List UInt32} {identity : CacheIdentity} {e : Nat}
    (hv : validRoster state.specs = true) (hm : hasMamba state.specs = true)
    (hok : OnLedgers U state history) (h : Reusable history state.specs identity tokens e) :
    0 < e := by
  obtain ⟨-, hpos, -⟩ := validRoster_iff.1 hv
  obtain ⟨spec, hspec, hkind⟩ := hasMamba_iff.1 hm
  obtain ⟨g, -, ht⟩ := hok spec hspec
  have hres := h.groups spec hspec
  unfold GroupReusable at hres
  rw [hkind] at hres
  have := (ht.resident_length hU (hpos spec hspec).1 hres).2
  rw [List.length_take] at this
  omega

/-- **Lookup is exact.**  In every run, lookup of an available worker whose valid roster has a
recurrent group answers the largest reusable boundary, or `0` when no boundary is reusable. -/
theorem lookup_exact (hU : U.CollisionFree) {maxAncestryEntries : Nat} {calls : List Call}
    {index : GroupBoundaryIndex H} {w : WorkerWithDpRank} {state : WorkerState H}
    (hr : Runs.run (step U) (.new maxAncestryEntries) calls = some index)
    (hw : index.workers.get? w = some state) (hun : state.unavailable = none)
    (hv : validRoster state.specs = true) (hm : hasMamba state.specs = true)
    (tokens : List UInt32) (identity : CacheIdentity) :
    ∃ e, index.lookup U w state.generation tokens identity .ordinary = some (.available e) ∧
      (IsGreatest {e | Reusable (histories U maxAncestryEntries calls w) state.specs identity
          tokens e} e ∨
        e = 0 ∧ ∀ e', ¬ Reusable (histories U maxAncestryEntries calls w) state.specs identity
          tokens e') := by
  have hok := (index_tracks hU hr w state hw).tracked hun hv
  obtain ⟨allowed, hallowed, hmem⟩ := mem_allowedEnds_iff hU tokens identity hv hok
  refine ⟨allowed.max?.getD 0, ?_, ?_⟩
  · simp [GroupBoundaryIndex.lookup, QueryOptions.ordinary, hw, hm, hun, hallowed]
  · cases hmax : allowed.max? with
    | none =>
      refine Or.inr ⟨rfl, fun e' he' => ?_⟩
      have : e' ∈ allowed := (hmem e').2 ⟨he'.pos hU hv hm hok, he'⟩
      rw [List.max?_eq_none_iff.1 hmax] at this
      exact List.not_mem_nil this
    | some e =>
      obtain ⟨he, hle⟩ := List.max?_eq_some_iff.1 hmax
      refine Or.inl ⟨((hmem e).1 he).2, fun e' he' => hle e' ?_⟩
      exact (hmem e').2 ⟨Reusable.pos hU hv hm hok he', he'⟩

/-- A store of one span without optional metadata. -/
def plainStore (group blockSize : Nat) (hashes : List UInt64) (tokens : List UInt32) :
    GroupEvent :=
  .blockStored ⟨hashes, none, tokens, blockSize, some group, none, ⟨none, none⟩, none, none, none,
    none, none, none, none, none, none, none⟩

/-- Two attention blocks and one recurrent block of one path. -/
def hybridCalls : List Call :=
  [.register ⟨1, 0⟩ 7 [⟨0, .fullAttention, 2, none⟩, ⟨1, .mamba, 4, none⟩],
    .apply ⟨1, 0⟩ 7 0 (plainStore 0 2 [10, 11] [1, 2, 3, 4]),
    .apply ⟨1, 0⟩ 7 1 (plainStore 1 4 [20] [1, 2, 3, 4])]

theorem lookup_exact_hybridCalls : ∃ index state,
    Runs.run (step plainHashing) (.new 8) hybridCalls = some index ∧
    index.workers.get? ⟨1, 0⟩ = some state ∧
    index.lookup plainHashing ⟨1, 0⟩ 7 [1, 2, 3, 4, 5] ⟨none, none⟩ .ordinary =
      some (.available 4) ∧
    IsGreatest {e | Reusable (histories plainHashing 8 hybridCalls ⟨1, 0⟩) state.specs
      ⟨none, none⟩ [1, 2, 3, 4, 5] e} 4 := by
  obtain ⟨index, hr, state, hw, hgen, hun, hv, hm, hl⟩ : ∃ index,
      Runs.run (step plainHashing) (.new 8) hybridCalls = some index ∧ ∃ state,
        index.workers.get? ⟨1, 0⟩ = some state ∧ state.generation = 7 ∧
        state.unavailable = none ∧ validRoster state.specs = true ∧ hasMamba state.specs = true ∧
        index.lookup plainHashing ⟨1, 0⟩ 7 [1, 2, 3, 4, 5] ⟨none, none⟩ .ordinary =
          some (.available 4) :=
    ⟨_, rfl, _, rfl, rfl, rfl, by decide, by decide, by decide⟩
  refine ⟨index, state, hr, hw, hl, ?_⟩
  obtain ⟨e, he, hgreatest⟩ := lookup_exact plainHashing_collisionFree hr hw hun hv hm
    [1, 2, 3, 4, 5] ⟨none, none⟩
  rw [hgen, hl, Option.some.injEq, ReuseBoundary.available.injEq] at he
  subst he
  exact hgreatest.resolve_right fun h => absurd h.1 (by decide)

end ReedCode.GroupBoundary
