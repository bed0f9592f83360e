import ReedCode.GroupBoundary.Residency
import ReedCode.Lib.Noninterference

/-!
# Namespaces do not interfere

What a worker's state is to one cache identity: two states are `Alike` for `A` if they hold
the same under the keys of `A` — engine hashes, residents and live prefixes of every group —
whatever they hold under other identities, whose keys may reuse the same engine hashes.

* `storeSpan_hidden`, `removeKey_hidden` — what is done under another identity leaves the
  state alike;
* `storeSpan_related`, `removeHash_alike` — what is done under `A`, or to an engine hash in
  every identity, keeps alike states alike;
* `unwinding` — an accepted event meets both duties of noninterference;
* `namespaces_isolated` — two histories of a worker that differ only in what is stored under
  other identities answer every lookup under `A` alike.

Nothing is assumed of the block hashing.
-/

set_option autoImplicit false

namespace ReedCode.GroupBoundary

open Except (Related)

variable {H : Type} [DecidableEq H] {U : BlockHashing H} {A : CacheIdentity}

/-! ## What one identity sees -/

/-- The two groups hold the same under the keys of `A`. -/
structure GroupState.Alike (A : CacheIdentity) (g t : GroupState H) : Prop where
  ancestry : ∀ hash, g.ancestry.get? (A, hash) = t.ancestry.get? (A, hash)
  resident : ∀ hash, g.resident.get? (A, hash) = t.resident.get? (A, hash)
  live : ∀ p, g.live.get? (A, p) = t.live.get? (A, p)

variable {g g' t t' : GroupState H}

theorem GroupState.Alike.refl (A : CacheIdentity) (g : GroupState H) : g.Alike A g :=
  ⟨fun _ => rfl, fun _ => rfl, fun _ => rfl⟩

theorem GroupState.Alike.symm (h : g.Alike A t) : t.Alike A g :=
  ⟨fun k => (h.ancestry k).symm, fun k => (h.resident k).symm, fun p => (h.live p).symm⟩

theorem GroupState.Alike.trans {u : GroupState H} (h : g.Alike A t) (h' : t.Alike A u) :
    g.Alike A u :=
  ⟨fun k => (h.ancestry k).trans (h'.ancestry k), fun k => (h.resident k).trans (h'.resident k),
    fun p => (h.live p).trans (h'.live p)⟩

/-! ## Storing -/

theorem recordAncestry_related (h : g.Alike A t) (hash : UInt64) (p : Prefix H) :
    Related (GroupState.Alike A) (recordAncestry g A hash p) (recordAncestry t A hash p) := by
  unfold recordAncestry
  rw [← h.ancestry hash]
  split
  · exact .error _
  · refine .ok ⟨fun k => ?_, h.resident, h.live⟩
    simp only [FinMap.get?_insert, h.ancestry k]

theorem recordAncestry_hidden {B : CacheIdentity} {hash : UInt64} {p : Prefix H} (hB : B ≠ A)
    (h : recordAncestry g B hash p = .ok g') : g.Alike A g' := by
  unfold recordAncestry at h
  split at h
  · cases h
  · cases h
    exact ⟨fun k => by simp [hB], fun _ => rfl, fun _ => rfl⟩

theorem storeBlock_related (h : g.Alike A t) (block : UInt64 × Prefix H) :
    Related (GroupState.Alike A) (storeBlock A g block) (storeBlock A t block) := by
  unfold storeBlock
  refine (recordAncestry_related h _ _).bind fun g₁ t₁ h₁ => ?_
  simp only [← h₁.resident block.1, ← h₁.live block.2]
  split
  · refine .ok ⟨h₁.ancestry, fun k => ?_, h₁.live⟩
    simp only [FinMap.get?_insert, h₁.resident k]
  · refine .ok ⟨h₁.ancestry, fun k => ?_, fun p => ?_⟩
    · simp only [FinMap.get?_insert, h₁.resident k]
    · simp only [FinMap.get?_insert, h₁.live p]

theorem storeBlock_hidden {B : CacheIdentity} {block : UInt64 × Prefix H} (hB : B ≠ A)
    (h : storeBlock B g block = .ok g') : g.Alike A g' := by
  unfold storeBlock at h
  obtain ⟨g₁, h₁, h⟩ := Except.bind_eq_ok_iff.1 h
  refine (recordAncestry_hidden hB h₁).trans ?_
  split at h
  · cases h
    exact ⟨fun _ => rfl, fun k => by simp [hB], fun _ => rfl⟩
  · cases h
    exact ⟨fun _ => rfl, fun k => by simp [hB], fun p => by simp [hB]⟩

theorem parent_alike (h : g.Alike A t) (hash : Option UInt64) :
    parent g A hash = parent t A hash := by
  cases hash with
  | none => rfl
  | some hash => rw [parent, parent, h.ancestry hash]

/-- The base of a span stored under `A` is read off the keys of `A`. -/
theorem storedBase_related {e : BlockStored} (h : g.Alike e.identity t) :
    Related (fun x y => x.1.Alike e.identity y.1 ∧ x.2 = y.2) (storedBase U g e)
      (storedBase U t e) := by
  unfold storedBase
  split
  · refine .bind_same fun _ => .bind_same fun _ => .bind_same fun _ => .bind_same fun hash =>
      .bind_same fun _ => ?_
    rw [parent_alike h]
    refine .bind_same fun _ => .bind_same fun last => ?_
    exact (recordAncestry_related h hash last).bind fun g₁ t₁ h₁ => .ok ⟨h₁, rfl⟩
  · refine .bind_same fun _ => ?_
    rw [parent_alike h]
    exact .bind_same fun base => .ok ⟨h, rfl⟩

/-- **A span stored under `A`** keeps what `A` sees in step. -/
theorem storeSpan_related {e : BlockStored} (h : g.Alike e.identity t) :
    Related (GroupState.Alike e.identity) (storeSpan U g e) (storeSpan U t e) := by
  unfold storeSpan
  refine .bind_same fun _ => .bind_same fun _ => (storedBase_related h).bind ?_
  rintro ⟨g₁, base⟩ ⟨t₁, _⟩ ⟨h₁, rfl⟩
  exact Related.foldlM (fun _ _ block hab => storeBlock_related hab block) h₁

/-- **A span stored under another identity** shows `A` nothing. -/
theorem storeSpan_hidden {e : BlockStored} (he : e.identity ≠ A) (h : storeSpan U g e = .ok g') :
    g.Alike A g' := by
  unfold storeSpan at h
  obtain ⟨-, -, h⟩ := Except.bind_eq_ok_iff.1 h
  obtain ⟨-, -, h⟩ := Except.bind_eq_ok_iff.1 h
  obtain ⟨⟨g₁, base⟩, hbase, h⟩ := Except.bind_eq_ok_iff.1 h
  have hfirst : g.Alike A g₁ := by
    unfold storedBase at hbase
    split at hbase
    · simp only [Except.bind_eq_ok_iff, pure, Except.pure, Except.ok.injEq,
        Prod.mk.injEq] at hbase
      obtain ⟨-, -, -, -, -, -, hash, -, -, -, -, -, last, -, g₂, hrec, rfl, -⟩ := hbase
      exact recordAncestry_hidden he hrec
    · simp only [Except.bind_eq_ok_iff, pure, Except.pure, Except.ok.injEq,
        Prod.mk.injEq] at hbase
      obtain ⟨-, -, -, -, rfl, -⟩ := hbase
      exact .refl A g
  refine Except.foldlM_induction (P := g.Alike A) ?_ hfirst h
  exact fun _ _ _ hacc hstep => hacc.trans (storeBlock_hidden he hstep)

/-! ## Removing -/

theorem removeKey_related (h : g.Alike A t) (hash : UInt64) :
    Related (GroupState.Alike A) (removeKey g (A, hash)) (removeKey t (A, hash)) := by
  unfold removeKey
  rw [← h.resident hash]
  split
  · exact .ok h
  · rename_i p _
    simp only [← h.live p]
    split
    · exact .error _
    · exact .error _
    · refine .ok ⟨h.ancestry, fun k => ?_, fun q => ?_⟩
      · simp only [FinMap.get?_erase, h.resident k]
      · split <;> simp [h.live q]

theorem removeKey_hidden {key : CacheIdentity × UInt64} (hkey : key.1 ≠ A)
    (h : removeKey g key = .ok g') : g.Alike A g' := by
  unfold removeKey at h
  split at h
  · cases h
    exact .refl A g
  · simp only at h
    split at h
    · cases h
    · cases h
    · cases h
      have hne : ∀ hash, key ≠ (A, hash) := fun hash hk => hkey (by rw [hk])
      refine ⟨fun _ => rfl, fun k => by simp [hne], fun q => ?_⟩
      simp only
      split <;> simp [hkey]

/-- Dropping distinct keys of one engine hash is, for `A`, dropping its own key, if it is
among them. -/
theorem removeKeys_of_hash {hash : UInt64} : ∀ {keys : List (CacheIdentity × UInt64)}
    {g g' : GroupState H}, keys.Nodup → (∀ key ∈ keys, key.2 = hash) →
      keys.foldlM removeKey g = .ok g' →
      if (A, hash) ∈ keys then ∃ g₁, removeKey g (A, hash) = .ok g₁ ∧ g₁.Alike A g'
      else g.Alike A g'
  | [], g, g', _, _, h => by
    cases h
    simp [GroupState.Alike.refl]
  | key :: keys, g, g', hn, hall, h => by
    rw [List.foldlM_cons] at h
    obtain ⟨g₁, h₁, h₂⟩ := Except.bind_eq_ok_iff.1 h
    obtain ⟨hnot, hn'⟩ := List.nodup_cons.1 hn
    have ih := removeKeys_of_hash hn' (fun k hk => hall k (List.mem_cons_of_mem key hk)) h₂
    by_cases hkey : key.1 = A
    · -- the key of `A` itself; it does not come again
      have hself : key = (A, hash) := Prod.ext hkey (hall key List.mem_cons_self)
      subst hself
      rw [if_neg hnot] at ih
      rw [if_pos List.mem_cons_self]
      exact ⟨g₁, h₁, ih⟩
    · have hother : (A, hash) ≠ key := fun hk => hkey (by rw [← hk])
      have hstep : g.Alike A g₁ := removeKey_hidden hkey h₁
      simp only [List.mem_cons, hother, false_or]
      split
      · rename_i hmem
        rw [if_pos hmem] at ih
        obtain ⟨g₂, h₃, h₄⟩ := ih
        obtain ⟨g₃, h₅, h₆⟩ := (removeKey_related hstep.symm hash).ok_left h₃
        exact ⟨g₃, h₅, h₆.symm.trans h₄⟩
      · rename_i hmem
        rw [if_neg hmem] at ih
        exact hstep.trans ih

/-- **Removing an engine hash** is, for `A`, dropping its own key of that hash. -/
theorem removeHash_own {hash : UInt64} (h : removeHash g hash = .ok g') :
    ∃ g₁, removeKey g (A, hash) = .ok g₁ ∧ g₁.Alike A g' := by
  have hkeys := removeKeys_of_hash (A := A) (g.resident.keys_nodup.filter _)
    (fun key hkey => by simpa using (List.mem_filter.1 hkey).2) h
  split at hkeys
  · exact hkeys
  · -- `A` has no resident of that hash
    rename_i hmem
    have hnone : g.resident.get? (A, hash) = none := by
      refine FinMap.not_mem_keys.1 fun hin => hmem (List.mem_filter.2 ⟨hin, ?_⟩)
      exact decide_eq_true rfl
    exact ⟨g, by rw [removeKey, hnone], hkeys⟩

theorem removeHash_alike {hash : UInt64} (hgt : g.Alike A t) (hg : removeHash g hash = .ok g')
    (ht : removeHash t hash = .ok t') : g'.Alike A t' := by
  obtain ⟨g₁, hg₁, hg₂⟩ := removeHash_own (A := A) hg
  obtain ⟨t₁, ht₁, ht₂⟩ := removeHash_own (A := A) ht
  exact hg₂.symm.trans (((removeKey_related hgt hash).of_ok hg₁ ht₁).trans ht₂)

theorem removeHashes_alike : ∀ {hashes : List UInt64} {g t g' t' : GroupState H}, g.Alike A t →
    hashes.foldlM removeHash g = .ok g' → hashes.foldlM removeHash t = .ok t' → g'.Alike A t'
  | [], g, t, g', t', hgt, hg, ht => by
    cases hg
    cases ht
    exact hgt
  | hash :: hashes, g, t, g', t', hgt, hg, ht => by
    rw [List.foldlM_cons] at hg ht
    obtain ⟨g₁, hg₁, hg₂⟩ := Except.bind_eq_ok_iff.1 hg
    obtain ⟨t₁, ht₁, ht₂⟩ := Except.bind_eq_ok_iff.1 ht
    exact removeHashes_alike (removeHash_alike hgt hg₁ ht₁) hg₂ ht₂

/-! ## Workers -/

/-- The two workers are alike for `A`; their sequence numbers may differ. -/
structure WorkerState.Alike (A : CacheIdentity) (s t : WorkerState H) : Prop where
  generation : s.generation = t.generation
  specs : s.specs = t.specs
  unavailable : s.unavailable = t.unavailable
  groups : ∀ id, Option.Rel (GroupState.Alike A) (s.groups.get? id) (t.groups.get? id)

theorem WorkerState.alike_equivalence (A : CacheIdentity) :
    Equivalence (WorkerState.Alike (H := H) A) where
  refl _ := ⟨rfl, rfl, rfl, fun _ => .refl (GroupState.Alike.refl A) _⟩
  symm h := ⟨h.generation.symm, h.specs.symm, h.unavailable.symm,
    fun id => (h.groups id).symm GroupState.Alike.symm⟩
  trans h h' := ⟨h.generation.trans h'.generation, h.specs.trans h'.specs,
    h.unavailable.trans h'.unavailable,
    fun id => Option.Rel.trans (R := GroupState.Alike A) (fun hab hbc => hab.trans hbc)
      (h.groups id) (h'.groups id)⟩

variable {s s' u u' : WorkerState H}

theorem WorkerState.Alike.insert (h : s.Alike A u) {id : Nat} (hg : g.Alike A t) :
    WorkerState.Alike A { s with groups := s.groups.insert id g }
      { u with groups := u.groups.insert id t } := by
  refine ⟨h.generation, h.specs, h.unavailable, fun i => ?_⟩
  simp only [FinMap.get?_insert]
  split
  · exact .some hg
  · exact h.groups i

theorem WorkerState.Alike.advance (h : s.Alike A u) : s.advance.Alike A u.advance :=
  ⟨h.generation, h.specs, h.unavailable, h.groups⟩

theorem WorkerState.Alike.clear (h : s.Alike A u) : s.clear.Alike A u.clear := by
  refine ⟨h.generation, h.specs, ?_, fun id => ?_⟩
  · simp only [WorkerState.clear, h.unavailable]
  · simp only [WorkerState.clear, FinMap.get?_mapVals]
    exact (h.groups id).map fun _ _ _ => .refl A _

/-- What an absorbed store does to its worker. -/
theorem applyStored_eq_ok {e : BlockStored} (h : s.applyStored U e = .ok s') :
    ∃ id g g', e.groupIdx = some id ∧ s.groups.get? id = some g ∧ storeSpan U g e = .ok g' ∧
      s' = { s with groups := s.groups.insert id g' } := by
  simp only [WorkerState.applyStored, Except.bind_eq_ok_iff, orUnavailable_eq_ok,
    orPanic_eq_ok, pure, Except.pure, Except.ok.injEq] at h
  obtain ⟨-, -, id, hid, -, -, -, -, g, hg, g', hspan, rfl⟩ := h
  exact ⟨id, g, g', hid, hg, hspan, rfl⟩

/-- What an absorbed removal does to its worker. -/
theorem applyRemoved_eq_ok {e : BlockRemoved} (h : s.applyRemoved e = .ok s') :
    ∃ id g g', e.groupIdx = some id ∧ s.groups.get? id = some g ∧
      e.blockHashes.foldlM removeHash g = .ok g' ∧
      s' = { s with groups := s.groups.insert id g' } := by
  simp only [WorkerState.applyRemoved, Except.bind_eq_ok_iff, orUnavailable_eq_ok, pure,
    Except.pure, Except.ok.injEq] at h
  obtain ⟨-, -, -, -, id, hid, g, hg, g', hrem, rfl⟩ := h
  exact ⟨id, g, g', hid, hg, hrem, rfl⟩

/-- A group of one worker is there, and alike, in the other. -/
theorem WorkerState.Alike.group (h : s.Alike A u) {id : Nat} (hg : s.groups.get? id = some g) :
    ∃ t, u.groups.get? id = some t ∧ g.Alike A t := by
  have hrel := h.groups id
  rw [hg] at hrel
  exact hrel.exists_of_some

/-! ## Accepted events -/

/-- The state after an event that a worker answers `Ok` (`none` when it does not). -/
def WorkerState.accept (U : BlockHashing H) (state : WorkerState H) :
    GroupEvent → Option (WorkerState H)
  | .allBlocksCleared none => some state.advance.clear
  | .allBlocksCleared (some _) => none
  | event =>
    if state.unavailable = none then (state.advance.apply U event).toOption else none

theorem accept_of_receive {maxEntries : Nat} {generation sequence : UInt64} {event : GroupEvent}
    (h : s.receive U maxEntries generation sequence event = some (s', .ok ())) :
    s.accept U event = some s' := by
  cases receive_cases h with
  | cleared _ _ hev =>
    rw [hev]
    rfl
  | absorbed _ _ hev hun _ happ _ =>
    cases event with
    | blockStored e | blockRemoved e =>
      simp only [WorkerState.accept, hun, if_true, happ, Except.toOption]
    | allBlocksCleared o => exact absurd rfl (hev o)

/-- The events an observer of `A` sees: all but what is stored under other identities. -/
def GroupEvent.concerns (A : CacheIdentity) : GroupEvent → Bool
  | .blockStored e => decide (e.identity = A)
  | _ => true

theorem accept_eq_some {event : GroupEvent} (h : s.accept U event = some s')
    (hev : ∀ o, event ≠ .allBlocksCleared o) : s.advance.apply U event = .ok s' := by
  have hopt : (s.advance.apply U event).toOption = some s' := by
    cases event with
    | allBlocksCleared o => exact absurd rfl (hev o)
    | blockStored e | blockRemoved e =>
      simp only [WorkerState.accept] at h
      split at h
      · exact h
      · cases h
  cases happ : s.advance.apply U event with
  | error e =>
    rw [happ] at hopt
    cases hopt
  | ok s₁ =>
    rw [happ] at hopt
    cases hopt
    rfl

/-- **Accepted events do not carry anything from one identity to another.** -/
theorem unwinding (U : BlockHashing H) (A : CacheIdentity) :
    Runs.Unwinding (WorkerState.accept U) (GroupEvent.concerns A) (WorkerState.Alike A) where
  equivalence := WorkerState.alike_equivalence A
  hidden := by
    intro s event s' hvis h
    cases event with
    | blockStored e =>
      have he : e.identity ≠ A := by simpa [GroupEvent.concerns] using hvis
      obtain ⟨id, g, g', -, hg, hspan, rfl⟩ :=
        applyStored_eq_ok (accept_eq_some h fun o ho => by cases ho)
      refine ⟨rfl, rfl, rfl, fun i => ?_⟩
      simp only [FinMap.get?_insert, advance_groups] at hg ⊢
      split
      · rename_i hi
        rw [← hi, hg]
        exact .some (storeSpan_hidden he hspan)
      · exact .refl (GroupState.Alike.refl A) _
    | blockRemoved e => cases hvis
    | allBlocksCleared o => cases hvis
  seen := by
    intro s u event s' u' hsu hvis hs hu
    cases event with
    | blockStored e =>
      have he : e.identity = A := by simpa [GroupEvent.concerns] using hvis
      subst he
      obtain ⟨id, g, g', hid, hg, hspan, rfl⟩ :=
        applyStored_eq_ok (accept_eq_some hs fun o ho => by cases ho)
      obtain ⟨id', t, t', hid', ht, hspan', rfl⟩ :=
        applyStored_eq_ok (accept_eq_some hu fun o ho => by cases ho)
      obtain rfl : id = id' := Option.some.inj (hid.symm.trans hid')
      obtain ⟨_, ht', hgt⟩ := hsu.advance.group hg
      obtain rfl := Option.some.inj (ht.symm.trans ht')
      exact hsu.advance.insert ((storeSpan_related hgt).of_ok hspan hspan')
    | blockRemoved e =>
      obtain ⟨id, g, g', hid, hg, hrem, rfl⟩ :=
        applyRemoved_eq_ok (accept_eq_some hs fun o ho => by cases ho)
      obtain ⟨id', t, t', hid', ht, hrem', rfl⟩ :=
        applyRemoved_eq_ok (accept_eq_some hu fun o ho => by cases ho)
      obtain rfl : id = id' := Option.some.inj (hid.symm.trans hid')
      obtain ⟨_, ht', hgt⟩ := hsu.advance.group hg
      obtain rfl := Option.some.inj (ht.symm.trans ht')
      exact hsu.advance.insert (removeHashes_alike hgt hrem hrem')
    | allBlocksCleared o =>
      cases o with
      | none =>
        cases hs
        cases hu
        exact hsu.advance.clear
      | some owner => cases hs

/-! ## Lookups -/

theorem groupEnds_alike (h : g.Alike A t) (kind : GroupKind) (limit : Nat) :
    ∀ ps : List (Prefix H), GroupBoundaryIndex.groupEnds g kind A limit ps =
      GroupBoundaryIndex.groupEnds t kind A limit ps
  | [] => rfl
  | p :: ps => by
    have hlive : g.live.contains (A, p) = t.live.contains (A, p) := by
      rw [FinMap.contains_eq_isSome, FinMap.contains_eq_isSome, h.live p]
    rw [GroupBoundaryIndex.groupEnds, GroupBoundaryIndex.groupEnds, hlive,
      groupEnds_alike h kind limit ps]

/-- The outer loop comes to the same ends, over groups that are there and alike. -/
theorem allowedEnds_alike (h : s.Alike A u) (tokens : List UInt32) :
    ∀ (specs : List GroupSpec) (allowed : Option (List Nat)),
      (∀ spec ∈ specs, (s.groups.get? spec.groupIdx).isSome) →
      ∃ ends, GroupBoundaryIndex.allowedEnds U s.groups tokens A allowed specs = some ends ∧
        GroupBoundaryIndex.allowedEnds U u.groups tokens A allowed specs = some ends
  | [], allowed, _ => ⟨allowed, rfl, rfl⟩
  | spec :: specs, allowed, hpresent => by
    obtain ⟨g, hg⟩ := Option.isSome_iff_exists.1 (hpresent spec List.mem_cons_self)
    obtain ⟨t, ht, hgt⟩ := h.group hg
    simp only [GroupBoundaryIndex.allowedEnds, hg, ht, groupEnds_alike hgt]
    exact allowedEnds_alike h tokens specs _ fun spec' hspec' =>
      hpresent spec' (List.mem_cons_of_mem spec hspec')

/-- Workers that are alike for `A` answer lookups under `A` alike, and do answer them. -/
theorem lookup_alike {index₁ index₂ : GroupBoundaryIndex H} {w : WorkerWithDpRank}
    (hs : index₁.workers.get? w = some s) (hu : index₂.workers.get? w = some u)
    (h : s.Alike A u) (hpresent : GroupsPresent s) (generation : UInt64) (tokens : List UInt32)
    (options : QueryOptions) :
    ∃ boundary, index₁.lookup U w generation tokens A options = some boundary ∧
      index₂.lookup U w generation tokens A options = some boundary := by
  obtain ⟨ends, hends₁, hends₂⟩ := allowedEnds_alike (U := U) h tokens s.specs none hpresent
  unfold GroupBoundaryIndex.lookup
  simp only [hs, hu, ← h.generation, ← h.specs, ← h.unavailable, hends₁, hends₂, Option.map_some]
  split
  · exact ⟨_, rfl, rfl⟩
  split
  · exact ⟨_, rfl, rfl⟩
  split
  · exact ⟨_, rfl, rfl⟩
  split
  · exact ⟨_, rfl, rfl⟩
  split
  · exact ⟨_, rfl, rfl⟩
  · exact ⟨_, rfl, rfl⟩

/-! ## Histories of a worker -/

/-- The event a call delivers to the worker. -/
def Call.event? (w : WorkerWithDpRank) : Call → Option GroupEvent
  | .apply worker _ _ event => if worker = w then some event else none
  | _ => none

/-- The event history of a worker in a run of calls. -/
def eventHistory (w : WorkerWithDpRank) (calls : List Call) : List GroupEvent :=
  calls.filterMap (Call.event? w)

/-- The call is about another worker, or delivers an event that the worker answers `Ok`: it
neither fails nor comes past the ancestry limit. -/
def KeepsAvailable (U : BlockHashing H) (w : WorkerWithDpRank) (index : GroupBoundaryIndex H)
    (call : Call) : Prop :=
  call.worker = w → ∃ generation sequence event index',
    call = .apply w generation sequence event ∧
      index.apply U w generation sequence event = some (index', .ok ())

theorem step_other {w : WorkerWithDpRank} {index index' : GroupBoundaryIndex H} {call : Call}
    (hcall : call.worker ≠ w) (h : step U index call = some index') :
    index'.workers.get? w = index.workers.get? w := by
  cases call with
  | register worker generation specs =>
    cases h
    exact FinMap.get?_insert_ne _ _ hcall
  | invalidate worker generation reason =>
    cases h
    unfold GroupBoundaryIndex.invalidate
    split
    · rfl
    · split
      · exact FinMap.get?_insert_ne _ _ hcall
      · rfl
  | remove worker =>
    cases h
    simp only [GroupBoundaryIndex.remove, FinMap.get?_erase]
    exact if_neg hcall
  | apply worker generation sequence event =>
    simp only [GroupBoundary.step, Option.map_eq_some_iff, GroupBoundaryIndex.apply] at h
    obtain ⟨⟨i₁, result⟩, happ, rfl⟩ := h
    split at happ
    · cases happ
      rfl
    · obtain ⟨r, -, hr⟩ := Option.map_eq_some_iff.1 happ
      cases hr
      exact FinMap.get?_insert_ne _ _ hcall

theorem Call.event?_other {w : WorkerWithDpRank} {call : Call} (hcall : call.worker ≠ w) :
    call.event? w = none := by
  cases call with
  | apply worker generation sequence event => exact if_neg hcall
  | register | invalidate | remove => rfl

/-- A worker that stays available has accepted its event history. -/
theorem accepts_history {w : WorkerWithDpRank} : ∀ {calls : List Call}
    {index index' : GroupBoundaryIndex H} {state : WorkerState H},
    index.workers.get? w = some state → Runs.run (step U) index calls = some index' →
    Runs.AllSteps (step U) (KeepsAvailable U w) index calls →
    ∃ state', index'.workers.get? w = some state' ∧
      Runs.run (WorkerState.accept U) state (eventHistory w calls) = some state'
  | [], index, index', state, hw, hr, _ => by
    rw [Runs.run_nil, Option.some.injEq] at hr
    exact ⟨state, hr ▸ hw, rfl⟩
  | call :: calls, index, index', state, hw, hr, hok => by
    obtain ⟨i₁, h₁, h₂⟩ := (Runs.run_cons_eq_some _).1 hr
    obtain ⟨hcall, hrest⟩ := hok
    by_cases hcw : call.worker = w
    · obtain ⟨generation, sequence, event, i₂, rfl, happ⟩ := hcall hcw
      have hi : i₂ = i₁ := by
        simp only [step, happ, Option.map_some, Option.some.injEq] at h₁
        exact h₁
      subst hi
      unfold GroupBoundaryIndex.apply at happ
      rw [hw] at happ
      obtain ⟨⟨s₁, result⟩, hrec, hr₁⟩ := Option.map_eq_some_iff.1 happ
      obtain ⟨rfl, rfl⟩ := Prod.mk.inj hr₁
      have hw₁ : (index.workers.insert w s₁).get? w = some s₁ := FinMap.get?_insert_self _ _ _
      obtain ⟨state', hstate', hrun⟩ := accepts_history hw₁ h₂ (hrest _ h₁)
      have hevents : eventHistory w (.apply w generation sequence event :: calls) =
          event :: eventHistory w calls := by
        simp [eventHistory, Call.event?]
      rw [hevents]
      exact ⟨state', hstate', (Runs.run_cons_eq_some _).2 ⟨s₁, accept_of_receive hrec, hrun⟩⟩
    · have hw₁ : i₁.workers.get? w = some state := (step_other hcw h₁).trans hw
      obtain ⟨state', hstate', hrun⟩ := accepts_history hw₁ h₂ (hrest _ h₁)
      have hevents : eventHistory w (call :: calls) = eventHistory w calls := by
        simp [eventHistory, Call.event?_other hcw]
      exact ⟨state', hstate', hevents ▸ hrun⟩

theorem GroupsPresent.accept {event : GroupEvent} (hp : GroupsPresent s)
    (h : s.accept U event = some s') : GroupsPresent s' := by
  have hadvance : GroupsPresent s.advance := hp
  cases event with
  | blockStored e => exact hadvance.apply (accept_eq_some h fun o ho => by cases ho)
  | blockRemoved e => exact hadvance.apply (accept_eq_some h fun o ho => by cases ho)
  | allBlocksCleared o =>
    cases o with
    | none =>
      cases h
      exact fun spec hspec => by simpa [WorkerState.clear] using hp spec hspec
    | some owner => cases h

omit [DecidableEq H] in
theorem groupsPresent_register (index : GroupBoundaryIndex H) (w : WorkerWithDpRank)
    (generation : UInt64) (specs : List GroupSpec) :
    ∃ state, (index.register w generation specs).workers.get? w = some state ∧
      GroupsPresent state ∧ ∀ index₂ : GroupBoundaryIndex H,
        (index₂.register w generation specs).workers.get? w = some state := by
  refine ⟨_, FinMap.get?_insert_self _ _ _, fun spec hspec => ?_, fun index₂ =>
    FinMap.get?_insert_self _ _ _⟩
  refine FinMap.isSome_get?_ofList.2 ?_
  simp only [List.map_map]
  exact List.mem_map.2 ⟨spec, hspec, rfl⟩

/-- **Namespaces do not interfere.**  Take a worker that registers and then stays available,
in two runs whose histories agree on all removals and clears and on what is stored under `A`,
and differ in any way in what is stored under other identities.  After both, every lookup
under `A` answers, and answers the same. -/
theorem namespaces_isolated {w : WorkerWithDpRank} {generation : UInt64} {specs : List GroupSpec}
    {index₁ index₂ index₁' index₂' : GroupBoundaryIndex H} {calls₁ calls₂ : List Call}
    (hrun₁ : Runs.run (step U) (index₁.register w generation specs) calls₁ = some index₁')
    (hrun₂ : Runs.run (step U) (index₂.register w generation specs) calls₂ = some index₂')
    (hok₁ : Runs.AllSteps (step U) (KeepsAvailable U w) (index₁.register w generation specs)
      calls₁)
    (hok₂ : Runs.AllSteps (step U) (KeepsAvailable U w) (index₂.register w generation specs)
      calls₂)
    (hagree : (eventHistory w calls₁).filter (GroupEvent.concerns A) =
      (eventHistory w calls₂).filter (GroupEvent.concerns A))
    (queried : UInt64) (tokens : List UInt32) (options : QueryOptions) :
    ∃ boundary, index₁'.lookup U w queried tokens A options = some boundary ∧
      index₂'.lookup U w queried tokens A options = some boundary := by
  obtain ⟨state, hw₁, hpresent, hall⟩ := groupsPresent_register index₁ w generation specs
  obtain ⟨s₁, hs₁, haccept₁⟩ := accepts_history hw₁ hrun₁ hok₁
  obtain ⟨s₂, hs₂, haccept₂⟩ := accepts_history (hall index₂) hrun₂ hok₂
  have halike : s₁.Alike A s₂ :=
    (unwinding U A).run ((WorkerState.alike_equivalence A).refl state) hagree haccept₁ haccept₂
  have hpresent₁ : GroupsPresent s₁ :=
    Runs.run_induction (fun _ _ _ hp h => GroupsPresent.accept hp h) hpresent haccept₁
  exact lookup_alike hs₁ hs₂ halike hpresent₁ queried tokens options

/-- A store of one span for one tenant, without optional metadata. -/
def tenantStore (cacheNamespace : Option String) (group blockSize : Nat) (hashes : List UInt64)
    (tokens : List UInt32) : GroupEvent :=
  .blockStored ⟨hashes, none, tokens, blockSize, some group, none, ⟨cacheNamespace, none⟩, none,
    none, none, none, none, none, none, none, none, none⟩

def hybridRoster : List GroupSpec := [⟨0, .fullAttention, 2, none⟩, ⟨1, .mamba, 2, none⟩]

/-- One tenant stores two blocks for both groups, and the second attention block is removed. -/
def aloneCalls : List Call :=
  [.apply ⟨1, 0⟩ 7 0 (tenantStore none 0 2 [10, 11] [1, 2, 3, 4]),
    .apply ⟨1, 0⟩ 7 1 (tenantStore none 1 2 [20, 21] [1, 2, 3, 4]),
    .apply ⟨1, 0⟩ 7 2 (.blockRemoved ⟨[11], some 0, none, none, none⟩)]

/-- The same beside a tenant that stores under the same engine hashes, once the same tokens
and once others. -/
def sharedCalls : List Call :=
  [.apply ⟨1, 0⟩ 7 0 (tenantStore (some "b") 0 2 [11, 10] [1, 2, 3, 4]),
    .apply ⟨1, 0⟩ 7 1 (tenantStore none 0 2 [10, 11] [1, 2, 3, 4]),
    .apply ⟨1, 0⟩ 7 2 (tenantStore none 1 2 [20, 21] [1, 2, 3, 4]),
    .apply ⟨1, 0⟩ 7 3 (tenantStore (some "b") 1 2 [20] [9, 9]),
    .apply ⟨1, 0⟩ 7 4 (.blockRemoved ⟨[11], some 0, none, none, none⟩)]

theorem namespaces_isolated_sharedCalls : ∃ alone shared,
    Runs.run (step plainHashing)
      ((GroupBoundaryIndex.new 8).register ⟨1, 0⟩ 7 hybridRoster) aloneCalls = some alone ∧
    Runs.run (step plainHashing)
      ((GroupBoundaryIndex.new 9).register ⟨1, 0⟩ 7 hybridRoster) sharedCalls = some shared ∧
    alone.lookup plainHashing ⟨1, 0⟩ 7 [1, 2, 3, 4, 5] ⟨none, none⟩ .ordinary =
      some (.available 2) ∧
    shared.lookup plainHashing ⟨1, 0⟩ 7 [1, 2, 3, 4, 5] ⟨none, none⟩ .ordinary =
      some (.available 2) := by
  obtain ⟨alone, halone, hanswer⟩ : ∃ alone, Runs.run (step plainHashing)
      ((GroupBoundaryIndex.new 8).register ⟨1, 0⟩ 7 hybridRoster) aloneCalls = some alone ∧
      alone.lookup plainHashing ⟨1, 0⟩ 7 [1, 2, 3, 4, 5] ⟨none, none⟩ .ordinary =
        some (.available 2) := ⟨_, rfl, by decide⟩
  obtain ⟨shared, hshared⟩ : ∃ shared, Runs.run (step plainHashing)
      ((GroupBoundaryIndex.new 9).register ⟨1, 0⟩ 7 hybridRoster) sharedCalls = some shared :=
    ⟨_, rfl⟩
  have hok₁ : Runs.AllSteps (step plainHashing) (KeepsAvailable plainHashing ⟨1, 0⟩)
      ((GroupBoundaryIndex.new 8).register ⟨1, 0⟩ 7 hybridRoster) aloneCalls := by
    iterate 3
      refine ⟨fun _ => ⟨_, _, _, _, rfl, rfl⟩, ?_⟩
      rintro _ ⟨⟩
    trivial
  have hok₂ : Runs.AllSteps (step plainHashing) (KeepsAvailable plainHashing ⟨1, 0⟩)
      ((GroupBoundaryIndex.new 9).register ⟨1, 0⟩ 7 hybridRoster) sharedCalls := by
    iterate 5
      refine ⟨fun _ => ⟨_, _, _, _, rfl, rfl⟩, ?_⟩
      rintro _ ⟨⟩
    trivial
  have hagree : (eventHistory ⟨1, 0⟩ aloneCalls).filter (GroupEvent.concerns ⟨none, none⟩) =
      (eventHistory ⟨1, 0⟩ sharedCalls).filter (GroupEvent.concerns ⟨none, none⟩) := by
    decide
  obtain ⟨boundary, hb₁, hb₂⟩ := namespaces_isolated halone hshared hok₁ hok₂ hagree 7
    [1, 2, 3, 4, 5] .ordinary
  rw [hanswer] at hb₁
  exact ⟨alone, shared, halone, hshared, hanswer, hb₁ ▸ hb₂⟩

end ReedCode.GroupBoundary
