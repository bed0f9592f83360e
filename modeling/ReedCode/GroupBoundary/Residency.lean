import ReedCode.GroupBoundary.Ledger

/-!
# The group maps refine the ledger

`Tracks U bs g l`: the hash maps of one group (`ancestry`, `resident`, `live`) are what the
ledger of its accepted events says, with every path replaced by its prefix and residency
counted per prefix.  Each operation keeps it:

* `Tracks.storeSpan` and `Tracks.removeHashes` — the two events of a group;
* `WorkerState.apply_tracks` — an accepted event keeps every group of a valid roster on its
  ledger;
* `index_tracks` — in every run, every available worker with a valid roster is on the
  ledgers of its history.

`Tracks.live_iff` then reads the live prefixes as resident paths; this is where the
collision-freeness of the upstream hashes is used.
-/

set_option autoImplicit false

namespace ReedCode.GroupBoundary

variable {H : Type} [DecidableEq H]

/-! ## Reference counts -/

/-- How many resident keys of `identity` hold the prefix. -/
def GroupState.refs (g : GroupState H) (identity : CacheIdentity) (p : Prefix H) : Nat :=
  g.resident.count fun key q => decide (key.1 = identity ∧ q = p)

/-- A count as the map holds it: zero counts are not kept. -/
def counted : Nat → Option Nat
  | 0 => none
  | n + 1 => some (n + 1)

theorem counted_isSome {n : Nat} : (counted n).isSome ↔ 0 < n := by
  cases n <;> simp [counted]

theorem counted_getD (n : Nat) : (counted n).getD 0 = n := by
  cases n <;> rfl

/-- Live counts are exactly the positive reference counts. -/
def LiveOk (g : GroupState H) : Prop :=
  ∀ identity p, g.live.get? (identity, p) = counted (g.refs identity p)

theorem liveOk_empty : LiveOk (GroupState.empty : GroupState H) := fun _ _ => rfl

theorem refs_pos_of_resident {g : GroupState H} {key : CacheIdentity × UInt64} {p : Prefix H}
    (h : g.resident.get? key = some p) : 0 < g.refs key.1 p :=
  FinMap.count_pos_iff.2 ⟨key, p, h, by simp⟩

/-- The live prefixes are the resident ones. -/
theorem LiveOk.contains_iff {g : GroupState H} (hl : LiveOk g) {identity : CacheIdentity}
    {p : Prefix H} : g.live.contains (identity, p) = true ↔
      ∃ hash, g.resident.get? (identity, hash) = some p := by
  rw [FinMap.contains_eq_isSome, hl identity p, counted_isSome]
  constructor
  · intro hpos
    obtain ⟨⟨i, hash⟩, q, hg, hq⟩ := FinMap.count_pos_iff.1 hpos
    simp only [decide_eq_true_eq] at hq
    obtain ⟨rfl, rfl⟩ := hq
    exact ⟨hash, hg⟩
  · rintro ⟨hash, hg⟩
    exact refs_pos_of_resident hg

/-- A new resident key adds one reference on its prefix. -/
theorem LiveOk.add {g : GroupState H} (hl : LiveOk g) {identity : CacheIdentity} {hash : UInt64}
    {p : Prefix H} (hnew : g.resident.get? (identity, hash) = none) :
    LiveOk { g with
      resident := g.resident.insert (identity, hash) p
      live := g.live.insert (identity, p) ((g.live.get? (identity, p)).getD 0 + 1) } := by
  intro i q
  have hold := hl i q
  simp only [GroupState.refs, FinMap.count_insert_of_none hnew, FinMap.get?_insert] at hold ⊢
  by_cases hk : (identity, p) = (i, q)
  · obtain ⟨rfl, rfl⟩ := Prod.mk.inj hk
    rw [if_pos rfl, hold, counted_getD]
    simp [counted]
  · have hk' : ¬ (identity = i ∧ p = q) := fun h => hk (by rw [h.1, h.2])
    simp [hk, hk', hold]

/-- **Dropping a key never panics** on consistent counts, keeps them, and touches nothing
but that key. -/
theorem removeKey_spec {g : GroupState H} (hl : LiveOk g) (key : CacheIdentity × UInt64) :
    ∃ g', removeKey g key = .ok g' ∧ LiveOk g' ∧ g'.ancestry = g.ancestry ∧
      ∀ k, g'.resident.get? k = if key = k then none else g.resident.get? k := by
  unfold removeKey
  cases hres : g.resident.get? key with
  | none =>
    refine ⟨g, rfl, hl, rfl, fun k => ?_⟩
    split
    · rename_i hk; rw [← hk, hres]
    · rfl
  | some p =>
    have hpos : 0 < g.refs key.1 p := refs_pos_of_resident hres
    obtain ⟨n, hn⟩ : ∃ n, g.refs key.1 p = n + 1 := ⟨g.refs key.1 p - 1, by omega⟩
    have hlive : g.live.get? (key.1, p) = some (n + 1) := by rw [hl key.1 p, hn]; rfl
    simp only [hlive]
    refine ⟨_, rfl, fun i q => ?_, rfl, fun k => by simp⟩
    have hold := hl i q
    have hcount := FinMap.count_erase_of_some (p := fun k q' => decide (k.1 = i ∧ q' = q)) hres
    simp only [GroupState.refs] at hold hn hcount ⊢
    by_cases hk : (key.1, p) = (i, q)
    · obtain ⟨rfl, rfl⟩ := Prod.mk.inj hk
      simp only [and_self, decide_true, if_true] at hcount
      have hn' : (g.resident.erase key).count (fun k q' => decide (k.1 = key.1 ∧ q' = p)) = n := by
        omega
      rw [hn']
      cases n with
      | zero => simp [counted]
      | succ n => simp [counted]
    · have hk' : ¬ (key.1 = i ∧ p = q) := fun h => hk (by rw [h.1, h.2])
      simp only [hk', decide_false, Bool.false_eq_true, if_false, Nat.add_zero] at hcount
      rw [hcount, ← hold]
      split
      · simp [hk]
      · simp [hk]

theorem removeKeys_spec : ∀ (keys : List (CacheIdentity × UInt64)) {g : GroupState H}, LiveOk g →
    ∃ g', keys.foldlM removeKey g = .ok g' ∧ LiveOk g' ∧ g'.ancestry = g.ancestry ∧
      ∀ k, g'.resident.get? k = if k ∈ keys then none else g.resident.get? k
  | [], g, hl => ⟨g, rfl, hl, rfl, fun k => by simp⟩
  | key :: keys, g, hl => by
    obtain ⟨g₁, h₁, hl₁, ha₁, hr₁⟩ := removeKey_spec hl key
    obtain ⟨g₂, h₂, hl₂, ha₂, hr₂⟩ := removeKeys_spec keys hl₁
    refine ⟨g₂, ?_, hl₂, ha₂.trans ha₁, fun k => ?_⟩
    · rw [List.foldlM_cons, h₁]
      exact h₂
    · rw [hr₂ k, hr₁ k]
      by_cases hk : key = k
      · subst hk; simp
      · simp [hk, Ne.symm hk]

theorem removeHash_spec {g : GroupState H} (hl : LiveOk g) (hash : UInt64) :
    ∃ g', removeHash g hash = .ok g' ∧ LiveOk g' ∧ g'.ancestry = g.ancestry ∧
      ∀ i h, g'.resident.get? (i, h) = if h = hash then none else g.resident.get? (i, h) := by
  obtain ⟨g', hg, hl', ha, hr⟩ := removeKeys_spec
    (g.resident.keys.filter fun key => decide (key.2 = hash)) hl
  refine ⟨g', hg, hl', ha, fun i h => ?_⟩
  rw [hr]
  by_cases hh : h = hash
  · subst hh
    by_cases hm : (i, h) ∈ g.resident.keys
    · simp [hm]
    · have := FinMap.not_mem_keys.1 hm
      simp [hm, this]
  · simp [hh]

/-! ## The refinement relation -/

/-- The maps of a group hold what its ledger says. -/
structure Tracks (U : BlockHashing H) (bs : Nat) (g : GroupState H) (l : Ledger) : Prop where
  path_ok : ∀ identity hash path, l.decode identity hash = some path →
    bs ∣ path.length ∧ (pathPrefix U bs identity path).isSome
  ancestry : ∀ identity hash, g.ancestry.get? (identity, hash) =
    (l.decode identity hash).bind (pathPrefix U bs identity)
  decoded : ∀ identity hash, l.stored identity hash = true → (l.decode identity hash).isSome
  resident : ∀ identity hash, g.resident.get? (identity, hash) =
    if l.stored identity hash then g.ancestry.get? (identity, hash) else none
  live : LiveOk g

variable {U : BlockHashing H} {bs : Nat} {g g' : GroupState H} {l : Ledger}

theorem Tracks.empty (U : BlockHashing H) (bs : Nat) : Tracks U bs .empty .empty :=
  ⟨fun _ _ _ h => by simp [Ledger.empty] at h, fun _ _ => rfl,
    fun _ _ h => by simp [Ledger.empty] at h, fun _ _ => rfl, liveOk_empty⟩

/-- Naming a hash by a path keeps the maps on the ledger, if the maps did not already hold
another prefix for it. -/
theorem Tracks.name (ht : Tracks U bs g l) {identity : CacheIdentity} {hash : UInt64}
    {path : List UInt32} {p : Prefix H} (hd : bs ∣ path.length)
    (hp : pathPrefix U bs identity path = some p)
    (hr : recordAncestry g identity hash p = .ok g') :
    Tracks U bs g' (l.name identity hash path) ∧ g'.resident = g.resident ∧ g'.live = g.live ∧
      g'.ancestry.get? (identity, hash) = some p := by
  unfold recordAncestry at hr
  split at hr
  · cases hr
  rename_i hsame
  cases hr
  have hsame' : ∀ q, g.ancestry.get? (identity, hash) = some q → q = p := by
    intro q hq
    simpa [hq] using hsame
  refine ⟨⟨?_, ?_, ?_, ?_, ht.live⟩, rfl, rfl, by simp⟩
  · intro i h path' hdec
    simp only [Ledger.name] at hdec
    split at hdec
    · rename_i hk
      cases hdec
      exact ⟨hd, by rw [hk.1, hp]; rfl⟩
    · exact ht.path_ok i h path' hdec
  · intro i h
    by_cases hk : (identity, hash) = (i, h)
    · obtain ⟨rfl, rfl⟩ := Prod.mk.inj hk
      simp [Ledger.name, hp]
    · have hk' : ¬ (i = identity ∧ h = hash) := fun e => hk (by rw [e.1, e.2])
      simp [Ledger.name, hk, hk', ht.ancestry i h]
  · intro i h hst
    simp only [Ledger.name] at hst ⊢
    split
    · rfl
    · exact ht.decoded i h hst
  · intro i h
    by_cases hk : (identity, hash) = (i, h)
    · obtain ⟨rfl, rfl⟩ := Prod.mk.inj hk
      have hold := ht.resident identity hash
      by_cases hst : l.stored identity hash = true
      · -- a stored hash keeps its prefix: the maps already held it
        obtain ⟨path', hpath'⟩ := Option.isSome_iff_exists.1 (ht.decoded identity hash hst)
        obtain ⟨q, hq⟩ := Option.isSome_iff_exists.1 (ht.path_ok _ _ _ hpath').2
        have hanc : g.ancestry.get? (identity, hash) = some q := by
          rw [ht.ancestry, hpath', Option.bind_some, hq]
        simp [Ledger.name, hst, hold, hanc, hsame' q hanc]
      · simp [Ledger.name, hst, hold]
    · simp [Ledger.name, hk, ht.resident i h]

/-- Marking a named hash as stored, with its prefix made resident. -/
theorem Tracks.mark (ht : Tracks U bs g l) {identity : CacheIdentity} {hash : UInt64}
    {p : Prefix H} {live : FinMap (CacheIdentity × Prefix H) Nat}
    (hp : g.ancestry.get? (identity, hash) = some p)
    (hl : LiveOk { g with resident := g.resident.insert (identity, hash) p, live }) :
    Tracks U bs { g with resident := g.resident.insert (identity, hash) p, live }
      (l.mark identity hash) := by
  refine ⟨ht.path_ok, ht.ancestry, ?_, ?_, hl⟩
  · intro i h hst
    by_cases hk : i = identity ∧ h = hash
    · obtain ⟨rfl, rfl⟩ := hk
      rw [ht.ancestry] at hp
      simp only [Ledger.mark]
      cases hdec : l.decode i h with
      | none => simp [hdec] at hp
      | some path => rfl
    · simp only [Ledger.mark, hk, if_false] at hst
      exact ht.decoded i h hst
  · intro i h
    by_cases hk : (identity, hash) = (i, h)
    · obtain ⟨rfl, rfl⟩ := Prod.mk.inj hk
      simp [Ledger.mark, hp]
    · have hk' : ¬ (i = identity ∧ h = hash) := fun e => hk (by rw [e.1, e.2])
      simp [Ledger.mark, hk, hk', ht.resident i h]

theorem Tracks.storeBlock (ht : Tracks U bs g l) {identity : CacheIdentity} {hash : UInt64}
    {path : List UInt32} {p : Prefix H} (hd : bs ∣ path.length)
    (hp : pathPrefix U bs identity path = some p)
    (hs : storeBlock identity g (hash, p) = .ok g') :
    Tracks U bs g' ((l.name identity hash path).mark identity hash) := by
  unfold GroupBoundary.storeBlock at hs
  obtain ⟨g₁, hr, hs⟩ := Except.bind_eq_ok_iff.1 hs
  obtain ⟨ht₁, -, -, hanc⟩ := ht.name hd hp hr
  cases hres : g₁.resident.get? (identity, hash) with
  | some q =>
    -- the hash was already resident, with the prefix its ancestry holds
    have hq : q = p := by
      have := ht₁.resident identity hash
      rw [hres, hanc] at this
      split at this
      · exact Option.some.inj this
      · cases this
    subst hq
    simp only [hres, pure, Except.pure, Except.ok.injEq] at hs
    subst hs
    have hl : LiveOk { g₁ with resident := g₁.resident.insert (identity, hash) q } := by
      rw [FinMap.insert_of_some hres]
      exact ht₁.live
    exact ht₁.mark hanc hl
  | none =>
    simp only [hres, pure, Except.pure, Except.ok.injEq] at hs
    subst hs
    exact ht₁.mark hanc (ht₁.live.add hres)

/-! ## Stored spans -/

theorem Tracks.storeBlocks (hU : U.CollisionFree) (hbs : 0 < bs) {identity : CacheIdentity} :
    ∀ {hashes : List UInt64} {path tokens : List UInt32} {g g' : GroupState H} {l : Ledger},
      Tracks U bs g l → bs ∣ path.length → tokens.length = hashes.length * bs →
      (hashes.zip (prefixes U tokens bs identity (pathPrefix U bs identity path))).foldlM
        (GroupBoundary.storeBlock identity) g = .ok g' →
      Tracks U bs g' (Ledger.storeBlocks identity bs l path tokens hashes)
  | [], _, _, _, _, _, ht, _, _, hs => by
    simp only [List.zip_nil_left, List.foldlM_nil, pure, Except.pure, Except.ok.injEq] at hs
    exact hs ▸ ht
  | hash :: hashes, path, tokens, g, g', l, ht, hd, hlen, hs => by
    rw [List.length_cons, Nat.add_mul, Nat.one_mul] at hlen
    have htake : (tokens.take bs).length = bs := by rw [List.length_take]; omega
    obtain ⟨p, hp, hchain⟩ : ∃ p, pathPrefix U bs identity (path ++ tokens.take bs) = some p ∧
        prefixes U tokens bs identity (pathPrefix U bs identity path) =
          p :: prefixes U (tokens.drop bs) bs identity (some p) :=
      prefixes_step hU hbs hd (by omega)
    rw [hchain, List.zip_cons_cons, List.foldlM_cons, Except.bind_eq_ok_iff] at hs
    obtain ⟨g₁, h₁, h₂⟩ := hs
    have hd' : bs ∣ (path ++ tokens.take bs).length := by
      rw [List.length_append, htake]
      exact Nat.dvd_add hd (Nat.dvd_refl bs)
    have hlen' : (tokens.drop bs).length = hashes.length * bs := by
      rw [List.length_drop]; omega
    rw [← hp] at h₂
    rw [Ledger.storeBlocks]
    exact Tracks.storeBlocks hU hbs (ht.storeBlock hd' hp h₁) hd' hlen' h₂

theorem orUnavailable_eq_ok {α : Type} {x : Option α} {reason : Unavailable} {a : α} :
    orUnavailable x reason = .ok a ↔ x = some a := by
  cases x <;> simp [orUnavailable]

theorem orPanic_eq_ok {α : Type} {x : Option α} {a : α} : orPanic x = .ok a ↔ x = some a := by
  cases x <;> simp [orPanic]

/-- The parent of a span is the prefix of its ledger path. -/
theorem Tracks.parent (ht : Tracks U bs g l) (hU : U.CollisionFree) (hbs : 0 < bs)
    {identity : CacheIdentity} {hash : Option UInt64} {base : Option (Prefix H)}
    (hp : parent g identity hash = .ok base) :
    base = pathPrefix U bs identity (l.parentPath identity hash) ∧
      bs ∣ (l.parentPath identity hash).length := by
  cases hash with
  | none =>
    simp only [GroupBoundary.parent, Except.ok.injEq] at hp
    simp [Ledger.parentPath, pathPrefix_nil hU hbs, ← hp]
  | some hash =>
    simp only [GroupBoundary.parent] at hp
    split at hp
    · rename_i p hanc
      cases hp
      rw [ht.ancestry] at hanc
      obtain ⟨path, hpath, hspan⟩ := Option.bind_eq_some_iff.1 hanc
      simp [Ledger.parentPath, hpath, hspan, (ht.path_ok _ _ _ hpath).1]
    · cases hp

/-- The base of a span: a skipped span is named, and the chain continues the span's path. -/
theorem Tracks.storedBase (ht : Tracks U bs g l) (hU : U.CollisionFree) (hbs : 0 < bs)
    {e : BlockStored} (he : e.blockSize = bs) {base : Option (Prefix H)}
    (hs : storedBase U g e = .ok (g', base)) :
    Tracks U bs g' (l.nameSkipped e) ∧ base = pathPrefix U bs e.identity (l.spanBase e) ∧
      bs ∣ (l.spanBase e).length := by
  unfold GroupBoundary.storedBase at hs
  split at hs
  · rename_i skipped hskip
    simp only [Except.bind_eq_ok_iff, Except.failIf_eq_ok, orUnavailable_eq_ok, pure,
      Except.pure, Except.ok.injEq, Prod.mk.injEq] at hs
    obtain ⟨-, hne, -, -, -, hmod, parentHash, hpar, -, -, ancestor, hanc, last, hlast, g₁, hr,
      rfl, rfl⟩ := hs
    rw [he] at hmod hlast
    obtain ⟨rfl, hd⟩ := ht.parent hU hbs hanc
    have hspan : l.spanBase e = l.parentPath e.identity e.skippedParentBlockHash ++ skipped := by
      simp [Ledger.spanBase, hskip]
    have hdvd : bs ∣ (l.spanBase e).length := by
      rw [hspan, List.length_append]
      exact Nat.dvd_add hd (Nat.dvd_of_mod_eq_zero (Classical.not_not.1 hmod))
    have hspan : pathPrefix U bs e.identity (l.spanBase e) = some last := by
      rw [hspan, pathPrefix, prefixes_of_path hU hbs hd, List.getLast?_append, hlast]
      rfl
    have hnamed : l.nameSkipped e = l.name e.identity parentHash (l.spanBase e) := by
      simp [Ledger.nameSkipped, hskip, hpar]
    rw [hnamed]
    exact ⟨(ht.name hdvd hspan hr).1, hspan.symm, hdvd⟩
  · rename_i hskip
    simp only [Except.bind_eq_ok_iff, Except.failIf_eq_ok, pure, Except.pure, Except.ok.injEq,
      Prod.mk.injEq] at hs
    obtain ⟨-, -, base', hpar, rfl, rfl⟩ := hs
    have hspan : l.spanBase e = l.parentPath e.identity e.parentBlockHash := by
      simp [Ledger.spanBase, hskip]
    have hnamed : l.nameSkipped e = l := by simp [Ledger.nameSkipped, hskip]
    obtain ⟨rfl, hd⟩ := ht.parent hU hbs hpar
    rw [hnamed, hspan]
    exact ⟨ht, rfl, hd⟩

theorem Tracks.storeSpan (ht : Tracks U bs g l) (hU : U.CollisionFree) (hbs : 0 < bs)
    {e : BlockStored} (he : e.blockSize = bs) (hs : storeSpan U g e = .ok g') :
    Tracks U bs g' (l.store e) := by
  unfold GroupBoundary.storeSpan at hs
  simp only [Except.bind_eq_ok_iff, Except.failIf_eq_ok] at hs
  obtain ⟨-, hlen, -, -, ⟨g₁, base⟩, hbase, hs⟩ := hs
  obtain ⟨ht₁, hpath, hd⟩ := ht.storedBase hU hbs he hbase
  simp only [hpath, he] at hs
  rw [Ledger.store, he]
  exact Tracks.storeBlocks hU hbs ht₁ hd (he ▸ Classical.not_not.1 hlen) hs

/-! ## Removals -/

theorem Tracks.removeHash (ht : Tracks U bs g l) (hash : UInt64)
    (hs : removeHash g hash = .ok g') : Tracks U bs g' (l.remove [hash]) := by
  obtain ⟨g₁, h₁, hl, ha, hr⟩ := removeHash_spec ht.live hash
  cases h₁.symm.trans hs
  refine ⟨ht.path_ok, fun i h => by rw [ha]; exact ht.ancestry i h, ?_, ?_, hl⟩
  · intro i h hst
    simp only [Ledger.remove, Bool.and_eq_true] at hst
    exact ht.decoded i h hst.1
  · intro i h
    rw [hr, ha, ht.resident]
    by_cases hh : h = hash
    · simp [Ledger.remove, hh]
    · simp [Ledger.remove, hh]

theorem Ledger.remove_cons (l : Ledger) (hash : UInt64) (hashes : List UInt64) :
    l.remove (hash :: hashes) = (l.remove [hash]).remove hashes := by
  simp [Ledger.remove, Bool.and_assoc]

theorem Ledger.remove_nil (l : Ledger) : l.remove [] = l := by
  simp [Ledger.remove]

theorem Tracks.removeHashes : ∀ {hashes : List UInt64} {g g' : GroupState H} {l : Ledger},
    Tracks U bs g l → hashes.foldlM GroupBoundary.removeHash g = .ok g' →
      Tracks U bs g' (l.remove hashes)
  | [], g, g', l, ht, hs => by
    simp only [List.foldlM_nil, pure, Except.pure, Except.ok.injEq] at hs
    rw [Ledger.remove_nil]
    exact hs ▸ ht
  | hash :: hashes, g, g', l, ht, hs => by
    rw [List.foldlM_cons, Except.bind_eq_ok_iff] at hs
    obtain ⟨g₁, h₁, h₂⟩ := hs
    rw [Ledger.remove_cons]
    exact Tracks.removeHashes (ht.removeHash hash h₁) h₂

/-! ## Workers -/

/-- Every group of the roster is on its ledger. -/
def OnLedgers (U : BlockHashing H) (state : WorkerState H) (history : List GroupEvent) : Prop :=
  ∀ spec ∈ state.specs, ∃ g, state.groups.get? spec.groupIdx = some g ∧
    Tracks U spec.blockSize g (ledger spec.groupIdx history)

/-- Every group of the roster has its maps. -/
def GroupsPresent (state : WorkerState H) : Prop :=
  ∀ spec ∈ state.specs, (state.groups.get? spec.groupIdx).isSome

variable {state state' : WorkerState H} {history : List GroupEvent} {event : GroupEvent}

/-- What an absorbed event leaves alone: everything but one present group. -/
theorem apply_frame (h : state.apply U event = .ok state') :
    ∃ id g, (state.groups.get? id).isSome ∧
      state' = { state with groups := state.groups.insert id g } := by
  cases event with
  | blockStored e =>
    simp only [WorkerState.apply, WorkerState.applyStored, Except.bind_eq_ok_iff,
      orPanic_eq_ok, pure, Except.pure, Except.ok.injEq] at h
    obtain ⟨-, -, id, -, spec, -, -, -, group, hg, g, -, rfl⟩ := h
    exact ⟨id, g, by rw [hg]; rfl, rfl⟩
  | blockRemoved e =>
    simp only [WorkerState.apply, WorkerState.applyRemoved, Except.bind_eq_ok_iff,
      orUnavailable_eq_ok, pure, Except.pure, Except.ok.injEq] at h
    obtain ⟨-, -, -, -, id, -, group, hg, g, -, rfl⟩ := h
    exact ⟨id, g, by rw [hg]; rfl, rfl⟩
  | allBlocksCleared o => cases h

theorem GroupsPresent.apply (hp : GroupsPresent state) (h : state.apply U event = .ok state') :
    GroupsPresent state' := by
  obtain ⟨id, g, hid, rfl⟩ := apply_frame h
  intro spec hspec
  simp only [FinMap.get?_insert]
  split
  · rfl
  · exact hp spec hspec

theorem GroupsPresent.onLedgers_empty (hp : GroupsPresent state) {reason : Option Unavailable} :
    OnLedgers U { state with
      groups := state.groups.mapVals fun _ => (.empty : GroupState H)
      unavailable := reason } [] := by
  intro spec hspec
  refine ⟨.empty, ?_, Tracks.empty U _⟩
  obtain ⟨g, hg⟩ := Option.isSome_iff_exists.1 (hp spec hspec)
  simp [hg]

omit [DecidableEq H] in
theorem GroupsPresent.mapVals (hp : GroupsPresent state) {reason : Option Unavailable} :
    GroupsPresent { state with
      groups := state.groups.mapVals fun _ => (.empty : GroupState H)
      unavailable := reason } := by
  intro spec hspec
  simpa using hp spec hspec

/-- Groups of a valid roster are told apart by their index. -/
theorem spec_eq_of_groupIdx {specs : List GroupSpec} (hv : validRoster specs = true)
    {spec spec' : GroupSpec} (h : spec ∈ specs) (h' : spec' ∈ specs)
    (he : spec.groupIdx = spec'.groupIdx) : spec = spec' :=
  List.inj_on_of_nodup_map (validRoster_iff.1 hv).2.2 h h' he

/-- **An absorbed event keeps every group on its ledger.** -/
theorem OnLedgers.apply (hU : U.CollisionFree) (hv : validRoster state.specs = true)
    (ho : OnLedgers U state history) (h : state.apply U event = .ok state') :
    OnLedgers U state' (history ++ [event]) := by
  have hpos := (validRoster_iff.1 hv).2.1
  cases event with
  | blockStored e =>
    simp only [WorkerState.apply, WorkerState.applyStored, Except.bind_eq_ok_iff,
      orPanic_eq_ok, orUnavailable_eq_ok, Except.failIf_eq_ok, pure, Except.pure,
      Except.ok.injEq] at h
    obtain ⟨-, -, id, hid, spec₀, hfind, -, hsize, group, hgroup, g, hspan, rfl⟩ := h
    have hmem₀ := List.mem_of_find?_eq_some hfind
    have hidx₀ : spec₀.groupIdx = id := by simpa using List.find?_some hfind
    intro spec hspec
    obtain ⟨g₀, hg₀, ht⟩ := ho spec hspec
    rw [ledger_append, Ledger.read, hid]
    by_cases hi : id = spec.groupIdx
    · have hspec₀ : spec = spec₀ := spec_eq_of_groupIdx hv hspec hmem₀ (hi.symm.trans hidx₀.symm)
      have hbs : e.blockSize = spec.blockSize := by
        rw [hspec₀]
        by_contra hne
        exact hsize (by simp [hne])
      rw [← hi] at hg₀
      cases hgroup.symm.trans hg₀
      refine ⟨g, by simp [hi], ?_⟩
      rw [if_pos (by rw [hi])]
      exact ht.storeSpan hU (hpos spec hspec).1 hbs hspan
    · refine ⟨g₀, by simp [hi, hg₀], ?_⟩
      rw [if_neg (by simpa using hi)]
      exact ht
  | blockRemoved e =>
    simp only [WorkerState.apply, WorkerState.applyRemoved, Except.bind_eq_ok_iff,
      orUnavailable_eq_ok, pure, Except.pure, Except.ok.injEq] at h
    obtain ⟨-, -, -, -, id, hid, group, hgroup, g, hrem, rfl⟩ := h
    intro spec hspec
    obtain ⟨g₀, hg₀, ht⟩ := ho spec hspec
    rw [ledger_append, Ledger.read, hid]
    by_cases hi : id = spec.groupIdx
    · rw [← hi] at hg₀
      cases hgroup.symm.trans hg₀
      refine ⟨g, by simp [hi], ?_⟩
      rw [if_pos (by rw [hi])]
      exact ht.removeHashes hrem
    · refine ⟨g₀, by simp [hi, hg₀], ?_⟩
      rw [if_neg (by simpa using hi)]
      exact ht
  | allBlocksCleared o => cases h

/-- The invariant of a worker with its history. -/
structure WorkerOk (U : BlockHashing H) (state : WorkerState H) (history : List GroupEvent) :
    Prop where
  present : GroupsPresent state
  tracked : state.unavailable = none → validRoster state.specs = true →
    OnLedgers U state history

theorem WorkerOk.fail (hw : WorkerOk U state history) (reason : Unavailable) :
    WorkerOk U (state.fail reason) history :=
  ⟨hw.present.mapVals, fun h => by cases h⟩

theorem WorkerOk.advance (hw : WorkerOk U state history) : WorkerOk U state.advance history :=
  ⟨hw.present, hw.tracked⟩

theorem WorkerOk.clear (hw : WorkerOk U state history) : WorkerOk U state.clear [] :=
  ⟨hw.present.mapVals, fun _ _ => hw.present.onLedgers_empty⟩

/-- **Every outcome of a call keeps the invariant of its worker.** -/
theorem WorkerOk.receive (hU : U.CollisionFree) (hw : WorkerOk U state history)
    {maxEntries : Nat} {generation sequence : UInt64} {result : Except Unavailable Unit}
    (h : state.receive U maxEntries generation sequence event = some (state', result)) :
    WorkerOk U state' (historyAfter history event result) := by
  cases receive_cases h with
  | foreign => exact hw
  | gap => exact hw.fail _
  | ownedClear => exact hw.advance.fail _
  | cleared hgen hseq hev => rw [hev]; exact hw.advance.clear
  | refused => exact hw.advance
  | failed => exact hw.advance.fail _
  | absorbed hgen hseq hev hun _ happ hmax =>
    have hhist : historyAfter history event (.ok ()) = history ++ [event] := by
      cases event with
      | allBlocksCleared o => exact absurd rfl (hev o)
      | blockStored e => rfl
      | blockRemoved e => rfl
    rw [hhist]
    refine ⟨hw.advance.present.apply happ, fun _ hv => ?_⟩
    have hspecs : state'.specs = state.advance.specs := by
      obtain ⟨id, g, -, rfl⟩ := apply_frame happ
      rfl
    rw [hspecs] at hv
    exact (hw.advance.tracked hun hv).apply hU hv happ

theorem WorkerOk.registered (generation : UInt64) (specs : List GroupSpec)
    (reason : Option Unavailable) : WorkerOk U
      { generation, nextSequence := 0, specs, unavailable := reason,
        groups := .ofList (specs.map fun g => (g.groupIdx, (.empty : GroupState H))) } [] := by
  have hall : ∀ e ∈ specs.map (fun g => (g.groupIdx, (.empty : GroupState H))), e.2 = .empty := by
    intro e he
    obtain ⟨g, -, rfl⟩ := List.mem_map.1 he
    rfl
  have hpresent : GroupsPresent (⟨generation, 0, specs,
      .ofList (specs.map fun g => (g.groupIdx, (.empty : GroupState H))), reason⟩ :
      WorkerState H) := by
    intro spec hspec
    rw [FinMap.isSome_get?_ofList]
    exact List.mem_map_of_mem (List.mem_map_of_mem hspec)
  refine ⟨hpresent, fun _ _ spec hspec => ?_⟩
  obtain ⟨g, hg⟩ := Option.isSome_iff_exists.1 (hpresent spec hspec)
  refine ⟨g, hg, ?_⟩
  have hempty : g = .empty := FinMap.get?_ofList_all (P := (· = .empty)) hall hg
  rw [hempty]
  exact Tracks.empty U _

/-! ## Runs -/

/-- Every registered worker is on the ledgers of its history. -/
def IndexOk (U : BlockHashing H) (index : GroupBoundaryIndex H)
    (history : WorkerWithDpRank → List GroupEvent) : Prop :=
  ∀ w state, index.workers.get? w = some state → WorkerOk U state (history w)

theorem IndexOk.step (hU : U.CollisionFree) {index index' : GroupBoundaryIndex H}
    {history : WorkerWithDpRank → List GroupEvent} {call : Call} (hi : IndexOk U index history)
    (h : step U index call = some index') : IndexOk U index' (record U index history call) := by
  cases call with
  | register worker generation specs =>
    cases h
    intro w state hw
    simp only [GroupBoundaryIndex.register, FinMap.get?_insert] at hw
    simp only [record]
    split at hw
    · rename_i he
      cases hw
      rw [if_pos he.symm]
      exact WorkerOk.registered generation specs _
    · rename_i he
      rw [if_neg (Ne.symm he)]
      exact hi w state hw
  | invalidate worker generation reason =>
    cases h
    intro w state hw
    simp only [GroupBoundaryIndex.invalidate] at hw
    simp only [record]
    split at hw
    · exact hi w state hw
    · rename_i s hs
      split at hw
      · simp only [FinMap.get?_insert] at hw
        split at hw
        · rename_i he
          cases hw
          subst he
          exact (hi worker s hs).fail reason
        · exact hi w state hw
      · exact hi w state hw
  | remove worker =>
    cases h
    intro w state hw
    simp only [GroupBoundaryIndex.remove, FinMap.get?_erase] at hw
    split at hw
    · cases hw
    · exact hi w state hw
  | apply worker generation sequence event =>
    simp only [GroupBoundary.step, Option.map_eq_some_iff] at h
    obtain ⟨⟨i₁, result⟩, happ, rfl⟩ := h
    simp only [record, happ]
    unfold GroupBoundaryIndex.apply at happ
    split at happ
    · -- an unregistered worker: nothing changes but the answer
      rename_i hnone
      cases happ
      intro w state hw
      have : w ≠ worker := fun he => by rw [he, hnone] at hw; cases hw
      simp only [this, if_false]
      exact hi w state hw
    · rename_i s hs
      simp only [Option.map_eq_some_iff, Prod.mk.injEq] at happ
      obtain ⟨⟨s', r⟩, hrec, rfl, rfl⟩ := happ
      intro w state hw
      simp only [FinMap.get?_insert] at hw
      split at hw
      · rename_i he
        cases hw
        subst he
        simp only [if_true]
        exact (hi worker s hs).receive hU hrec
      · rename_i he
        simp only [Ne.symm he, if_false]
        exact hi w state hw

theorem IndexOk.run (hU : U.CollisionFree) : ∀ {calls : List Call}
    {index index' : GroupBoundaryIndex H} {history : WorkerWithDpRank → List GroupEvent},
    IndexOk U index history → Runs.run (GroupBoundary.step U) index calls = some index' →
      IndexOk U index' (historiesFrom U index history calls)
  | [], index, index', history, hi, hr => by
    rw [Runs.run_nil, Option.some.injEq] at hr
    exact hr ▸ hi
  | call :: calls, index, index', history, hi, hr => by
    obtain ⟨i₁, h₁, h₂⟩ := (Runs.run_cons_eq_some _).1 hr
    simp only [historiesFrom, h₁]
    exact IndexOk.run hU (hi.step hU h₁) h₂

/-- **In every run every worker is on the ledgers of its accepted events.** -/
theorem index_tracks (hU : U.CollisionFree) {maxEntries : Nat} {calls : List Call}
    {index : GroupBoundaryIndex H}
    (hr : Runs.run (step U) (.new maxEntries) calls = some index) :
    IndexOk U index (histories U maxEntries calls) :=
  IndexOk.run hU (fun _ _ h => by cases h) hr

end ReedCode.GroupBoundary
