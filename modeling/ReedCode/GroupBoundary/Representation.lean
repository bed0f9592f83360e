import ReedCode.GroupBoundary.Lookup
import Mathlib.Algebra.BigOperators.Group.List.Basic

/-!
# The representation invariant of the index

What holds of the maps of every worker, whatever its roster and whatever the hashes are, and
that no call aborts on a worker whose roster is valid.

* `GroupOk` — the live counts of a group count its resident keys, and residents are ancestry;
* `storeSpan_noPanic`, `removeHashes_spec` — the two events on such a group;
* `Representation` — the invariant of a worker: groups in order, ancestry within its limit
  while it is available, and empty maps while it is not;
* `representation` — every reachable worker has it, and its calls and queries return.
-/

set_option autoImplicit false

namespace ReedCode.GroupBoundary

variable {H : Type} [DecidableEq H]

/-! ## Steps that do not abort -/

/-- A step that does not abort. -/
def NoPanic {α : Type} (x : Except Fault α) : Prop := x ≠ .error .panic

omit [DecidableEq H] in
theorem NoPanic.ok {α : Type} (a : α) : NoPanic (.ok a) := fun h => by cases h

theorem NoPanic.bind {α β : Type} {x : Except Fault α} {f : α → Except Fault β}
    (hx : NoPanic x) (hf : ∀ a, x = .ok a → NoPanic (f a)) : NoPanic (x >>= f) := by
  intro h
  rcases Except.bind_eq_error_iff.1 h with hx' | ⟨a, ha, hfa⟩
  · exact hx hx'
  · exact hf a ha hfa

theorem NoPanic.failIf {c : Prop} [Decidable c] {reason : Unavailable} :
    NoPanic (Except.failIf c (.unavailable reason)) := by
  intro h
  unfold Except.failIf at h
  split at h <;> cases h

theorem NoPanic.orUnavailable {α : Type} (x : Option α) (reason : Unavailable) :
    NoPanic (orUnavailable x reason) := by
  intro h
  cases x <;> cases h

/-- A fold whose steps keep `P` and do not abort while it holds. -/
theorem NoPanic.foldlM {α β : Type} {f : β → α → Except Fault β} {P : β → Prop}
    (hstep : ∀ b a, P b → NoPanic (f b a) ∧ ∀ b', f b a = .ok b' → P b') :
    ∀ {as : List α} {b : β}, P b → NoPanic (as.foldlM f b)
  | [], b, _ => NoPanic.ok b
  | a :: as, b, h => by
    rw [List.foldlM_cons]
    exact (hstep b a h).1.bind fun b' hb' => NoPanic.foldlM hstep ((hstep b a h).2 b' hb')

/-! ## Groups -/

/-- The live counts count the resident keys, and every resident entry is an ancestry entry. -/
structure GroupOk (g : GroupState H) : Prop where
  live : LiveOk g
  ancestry : ∀ key p, g.resident.get? key = some p → g.ancestry.get? key = some p

variable {U : BlockHashing H} {g g' : GroupState H}

theorem GroupOk.empty : GroupOk (.empty : GroupState H) :=
  ⟨liveOk_empty, fun _ _ h => by cases h⟩

theorem recordAncestry_noPanic (g : GroupState H) (identity : CacheIdentity) (hash : UInt64)
    (p : Prefix H) : NoPanic (recordAncestry g identity hash p) := by
  intro h
  unfold recordAncestry at h
  split at h <;> cases h

theorem GroupOk.recordAncestry (hg : GroupOk g) {identity : CacheIdentity} {hash : UInt64}
    {p : Prefix H} (h : recordAncestry g identity hash p = .ok g') :
    GroupOk g' ∧ g'.ancestry.get? (identity, hash) = some p := by
  unfold GroupBoundary.recordAncestry at h
  split at h
  · cases h
  rename_i hsame
  cases h
  refine ⟨⟨hg.live, fun key q hq => ?_⟩, FinMap.get?_insert_self _ _ _⟩
  have hold := hg.ancestry key q hq
  rw [FinMap.get?_insert]
  split
  · -- the key already names this prefix
    rename_i hkey
    subst hkey
    by_contra hne
    exact hsame (by simpa [hold] using fun he => hne (by rw [he]))
  · exact hold

/-- A stored block keeps the counts: an old residency has the same prefix. -/
theorem GroupOk.storeBlock (hg : GroupOk g) {identity : CacheIdentity} {block : UInt64 × Prefix H}
    (h : storeBlock identity g block = .ok g') : GroupOk g' := by
  unfold GroupBoundary.storeBlock at h
  obtain ⟨g₁, h₁, h⟩ := Except.bind_eq_ok_iff.1 h
  obtain ⟨hg₁, hancestry⟩ := hg.recordAncestry h₁
  have hkeys : ∀ key q, (g₁.resident.insert (identity, block.1) block.2).get? key = some q →
      g₁.ancestry.get? key = some q := by
    intro key q hq
    rw [FinMap.get?_insert] at hq
    split at hq
    · rename_i hkey
      cases hq
      exact hkey ▸ hancestry
    · exact hg₁.ancestry key q hq
  cases hres : g₁.resident.get? (identity, block.1) with
  | some q =>
    have hsame : q = block.2 := by
      have hold := hg₁.ancestry _ q hres
      rw [hancestry] at hold
      exact (Option.some.inj hold).symm
    subst hsame
    simp only [hres, pure, Except.pure, Except.ok.injEq] at h
    subst h
    refine ⟨?_, hkeys⟩
    rw [FinMap.insert_of_some hres]
    exact hg₁.live
  | none =>
    simp only [hres, pure, Except.pure, Except.ok.injEq] at h
    subst h
    exact ⟨hg₁.live.add hres, hkeys⟩

theorem storeBlock_noPanic (identity : CacheIdentity) (g : GroupState H)
    (block : UInt64 × Prefix H) : NoPanic (storeBlock identity g block) := by
  unfold storeBlock
  refine (recordAncestry_noPanic g identity block.1 block.2).bind fun g₁ _ => ?_
  simp only
  split <;> exact NoPanic.ok _

omit [DecidableEq H] in
theorem parent_noPanic (g : GroupState H) (identity : CacheIdentity) (hash : Option UInt64) :
    NoPanic (parent g identity hash) := by
  intro h
  unfold parent at h
  split at h
  · cases h
  · split at h <;> cases h

theorem GroupOk.storedBase (hg : GroupOk g) {e : BlockStored} {base : Option (Prefix H)}
    (h : storedBase U g e = .ok (g', base)) : GroupOk g' := by
  unfold GroupBoundary.storedBase at h
  split at h
  · simp only [Except.bind_eq_ok_iff, Except.failIf_eq_ok, orUnavailable_eq_ok, pure,
      Except.pure, Except.ok.injEq, Prod.mk.injEq] at h
    obtain ⟨-, -, -, -, -, -, parentHash, -, -, -, ancestor, -, last, -, g₁, hrecord, rfl, -⟩ := h
    exact (hg.recordAncestry hrecord).1
  · simp only [Except.bind_eq_ok_iff, Except.failIf_eq_ok, pure, Except.pure, Except.ok.injEq,
      Prod.mk.injEq] at h
    obtain ⟨-, -, base', -, rfl, -⟩ := h
    exact hg

theorem storedBase_noPanic (U : BlockHashing H) (g : GroupState H) {e : BlockStored}
    (hsize : 0 < e.blockSize) : NoPanic (storedBase U g e) := by
  unfold storedBase
  split
  · rw [Except.failIf, Except.failIf, if_neg (Nat.pos_iff_ne_zero.1 hsize)]
    refine NoPanic.failIf.bind fun _ _ => (NoPanic.ok _).bind fun _ _ =>
      NoPanic.failIf.bind fun _ _ => (NoPanic.orUnavailable _ _).bind fun _ _ =>
      NoPanic.failIf.bind fun _ _ => (parent_noPanic _ _ _).bind fun _ _ =>
      (NoPanic.orUnavailable _ _).bind fun _ _ =>
      (recordAncestry_noPanic _ _ _ _).bind fun _ _ => NoPanic.ok _
  · exact NoPanic.failIf.bind fun _ _ => (parent_noPanic _ _ _).bind fun _ _ => NoPanic.ok _

theorem GroupOk.storeSpan (hg : GroupOk g) {e : BlockStored} (h : storeSpan U g e = .ok g') :
    GroupOk g' := by
  unfold GroupBoundary.storeSpan at h
  simp only [Except.bind_eq_ok_iff, Except.failIf_eq_ok] at h
  obtain ⟨-, -, -, -, ⟨g₁, base⟩, hbase, h⟩ := h
  exact Except.foldlM_induction (fun _ _ _ hb hs => GroupOk.storeBlock hb hs)
    (hg.storedBase hbase) h

/-- **Storing does not abort** for a positive block size. -/
theorem storeSpan_noPanic (U : BlockHashing H) (g : GroupState H) {e : BlockStored}
    (hsize : 0 < e.blockSize) : NoPanic (storeSpan U g e) := by
  unfold storeSpan
  refine NoPanic.failIf.bind fun _ _ => NoPanic.failIf.bind fun _ _ =>
    (storedBase_noPanic U g hsize).bind fun spanned _ => ?_
  exact NoPanic.foldlM (P := fun _ => True)
    (fun b block _ => ⟨storeBlock_noPanic e.identity b block, fun _ _ => trivial⟩) trivial

/-- **Removing does not abort** on a group in order, and keeps it in order. -/
theorem GroupOk.removeHashes : ∀ (hashes : List UInt64) {g : GroupState H}, GroupOk g →
    ∃ g', hashes.foldlM GroupBoundary.removeHash g = .ok g' ∧ GroupOk g'
  | [], g, hg => ⟨g, rfl, hg⟩
  | hash :: hashes, g, hg => by
    obtain ⟨g₁, h₁, hlive, hancestry, hres⟩ := removeHash_spec hg.live hash
    have hg₁ : GroupOk g₁ := by
      refine ⟨hlive, fun key p hp => ?_⟩
      rw [hancestry]
      rw [hres key.1 key.2] at hp
      split at hp
      · cases hp
      · exact hg.ancestry key p hp
    obtain ⟨g₂, h₂, hg₂⟩ := GroupOk.removeHashes hashes hg₁
    refine ⟨g₂, ?_, hg₂⟩
    rw [List.foldlM_cons, h₁]
    exact h₂

/-! ## Workers -/

/-- **The representation invariant** of a worker. -/
structure Representation (maxEntries : Nat) (state : WorkerState H) : Prop where
  groups : ∀ id g, state.groups.get? id = some g → GroupOk g
  bounded : state.unavailable = none → state.ancestryEntries ≤ maxEntries
  wiped : state.unavailable ≠ none → ∀ id g, state.groups.get? id = some g → g = .empty

variable {maxEntries : Nat} {state state' : WorkerState H} {event : GroupEvent}

omit [DecidableEq H] in
/-- Empty groups have no ancestry. -/
theorem ancestryEntries_of_wiped
    (h : ∀ id g, state.groups.get? id = some g → g = .empty) : state.ancestryEntries = 0 := by
  unfold WorkerState.ancestryEntries
  refine List.sum_eq_zero fun n hn => ?_
  obtain ⟨⟨id, g⟩, he, rfl⟩ := List.mem_map.1 hn
  rw [h id g (FinMap.mem_entries.1 he)]
  rfl

/-- A worker whose groups were all emptied. -/
theorem Representation.of_wiped (h : ∀ id g, state.groups.get? id = some g → g = .empty) :
    Representation maxEntries state where
  groups id g hg := h id g hg ▸ GroupOk.empty
  bounded _ := (ancestryEntries_of_wiped h).trans_le (Nat.zero_le _)
  wiped _ := h

omit [DecidableEq H] in
theorem wiped_mapVals {groups : FinMap Nat (GroupState H)} {id : Nat} {g : GroupState H}
    (h : (groups.mapVals fun _ => (.empty : GroupState H)).get? id = some g) : g = .empty := by
  rw [FinMap.get?_mapVals] at h
  obtain ⟨_, -, rfl⟩ := Option.map_eq_some_iff.1 h
  rfl

theorem Representation.fail (state : WorkerState H) (reason : Unavailable) :
    Representation maxEntries (state.fail reason) :=
  .of_wiped fun _ _ h => wiped_mapVals h

theorem Representation.clear (state : WorkerState H) : Representation maxEntries state.clear :=
  .of_wiped fun _ _ h => wiped_mapVals h

theorem Representation.advance (hr : Representation maxEntries state) :
    Representation maxEntries state.advance :=
  ⟨hr.groups, hr.bounded, hr.wiped⟩

/-- An absorbed event keeps every group in order. -/
theorem Representation.apply (hr : Representation maxEntries state)
    (h : state.apply U event = .ok state') :
    ∀ id g, state'.groups.get? id = some g → GroupOk g := by
  obtain ⟨id₀, g₀, rfl, hg₀⟩ : ∃ id₀ g₀,
      state' = { state with groups := state.groups.insert id₀ g₀ } ∧ GroupOk g₀ := by
    cases event with
    | blockStored e =>
      simp only [WorkerState.apply, WorkerState.applyStored, Except.bind_eq_ok_iff,
        orPanic_eq_ok, pure, Except.pure, Except.ok.injEq] at h
      obtain ⟨-, -, id, -, spec, -, -, -, group, hgroup, g, hspan, rfl⟩ := h
      exact ⟨id, g, rfl, (hr.groups id group hgroup).storeSpan hspan⟩
    | blockRemoved e =>
      simp only [WorkerState.apply, WorkerState.applyRemoved, Except.bind_eq_ok_iff,
        orUnavailable_eq_ok, pure, Except.pure, Except.ok.injEq] at h
      obtain ⟨-, -, -, -, id, -, group, hgroup, g, hremove, rfl⟩ := h
      obtain ⟨g', hg', hok⟩ := GroupOk.removeHashes e.blockHashes (hr.groups id group hgroup)
      cases hg'.symm.trans hremove
      exact ⟨id, g, rfl, hok⟩
    | allBlocksCleared o => cases h
  intro id g hg
  rw [FinMap.get?_insert] at hg
  split at hg
  · cases hg
    exact hg₀
  · exact hr.groups id g hg

/-- **Every outcome of a call keeps the representation.** -/
theorem Representation.receive (hr : Representation maxEntries state) {generation sequence : UInt64}
    {result : Except Unavailable Unit}
    (h : state.receive U maxEntries generation sequence event = some (state', result)) :
    Representation maxEntries state' := by
  cases receive_cases h with
  | foreign => exact hr
  | gap => exact .fail _ _
  | ownedClear => exact .fail _ _
  | cleared => exact .clear _
  | refused => exact hr.advance
  | failed => exact .fail _ _
  | absorbed hgen hseq hev hun _ happ hmax =>
    have hun' : state'.unavailable = none := by
      obtain ⟨id, g, -, rfl⟩ := apply_frame happ
      exact hun
    exact ⟨hr.advance.apply happ, fun _ => hmax, fun h => absurd hun' h⟩

/-- **An event does not abort** on a worker with a valid roster. -/
theorem apply_noPanic (hr : Representation maxEntries state) (hp : GroupsPresent state)
    (hv : validRoster state.specs = true) (hev : ∀ o, event ≠ .allBlocksCleared o) :
    NoPanic (state.apply U event) := by
  cases event with
  | blockStored e =>
    unfold WorkerState.apply WorkerState.applyStored
    have hmeta : NoPanic (checkMetadata e) := NoPanic.failIf.bind fun _ _ => NoPanic.failIf
    refine hmeta.bind fun _ _ => (NoPanic.orUnavailable _ _).bind fun id _ =>
      (NoPanic.orUnavailable _ _).bind fun spec hspec => NoPanic.failIf.bind fun _ hsize => ?_
    rw [orUnavailable_eq_ok] at hspec
    have hmem := List.mem_of_find?_eq_some hspec
    have hid : spec.groupIdx = id := by simpa using List.find?_some hspec
    obtain ⟨group, hgroup⟩ := Option.isSome_iff_exists.1 (hp spec hmem)
    rw [hid] at hgroup
    have hpos : 0 < e.blockSize := by
      rw [Except.failIf_eq_ok] at hsize
      have heq : e.blockSize = spec.blockSize := by
        by_contra hne
        exact hsize (by simp [hne])
      exact heq ▸ ((validRoster_iff.1 hv).2.1 spec hmem).1
    have hfound : NoPanic (orPanic (state.groups.get? id)) := by
      rw [hgroup]
      exact NoPanic.ok group
    exact hfound.bind fun group _ => (storeSpan_noPanic U group hpos).bind fun _ _ => NoPanic.ok _
  | blockRemoved e =>
    unfold WorkerState.apply WorkerState.applyRemoved
    refine NoPanic.failIf.bind fun _ _ => NoPanic.failIf.bind fun _ _ =>
      (NoPanic.orUnavailable _ _).bind fun id _ => (NoPanic.orUnavailable _ _).bind fun group hgroup =>
      NoPanic.bind ?_ fun _ _ => NoPanic.ok _
    obtain ⟨g', hg', -⟩ := GroupOk.removeHashes e.blockHashes
      (hr.groups id group (orUnavailable_eq_ok.1 hgroup))
    rw [hg']
    exact NoPanic.ok g'
  | allBlocksCleared o => exact absurd rfl (hev o)

theorem receive_isSome (hr : Representation maxEntries state) (hp : GroupsPresent state)
    (hv : validRoster state.specs = true) (generation sequence : UInt64) (event : GroupEvent) :
    (state.receive U maxEntries generation sequence event).isSome = true := by
  unfold WorkerState.receive
  split
  · rfl
  split
  · rfl
  simp only
  split
  · split <;> rfl
  · rename_i hev
    split
    · rfl
    · have hpanic : NoPanic (state.advance.apply U event) :=
        apply_noPanic hr.advance hp hv fun o ho => hev o ho
      split
      · split <;> rfl
      · rfl
      · rename_i hfault
        exact absurd hfault hpanic

/-- The groups of a roster are all there to be indexed. -/
theorem allowedEnds_isSome (groups : FinMap Nat (GroupState H)) (tokens : List UInt32)
    (identity : CacheIdentity) : ∀ (specs : List GroupSpec) (allowed : Option (List Nat)),
    (∀ spec ∈ specs, (groups.get? spec.groupIdx).isSome) →
      (GroupBoundaryIndex.allowedEnds U groups tokens identity allowed specs).isSome = true
  | [], _, _ => rfl
  | spec :: specs, allowed, h => by
    obtain ⟨group, hgroup⟩ := Option.isSome_iff_exists.1 (h spec List.mem_cons_self)
    unfold GroupBoundaryIndex.allowedEnds
    rw [hgroup]
    exact allowedEnds_isSome groups tokens identity specs _
      fun s hs => h s (List.mem_cons_of_mem _ hs)

/-! ## Runs -/

/-- Every worker has its groups and the representation. -/
def IndexRepresented (index : GroupBoundaryIndex H) : Prop :=
  ∀ w state, index.workers.get? w = some state →
    GroupsPresent state ∧ Representation index.maxAncestryEntries state

omit [DecidableEq H] in
theorem GroupsPresent.fail (hp : GroupsPresent state) (reason : Unavailable) :
    GroupsPresent (state.fail reason) :=
  hp.mapVals

omit [DecidableEq H] in
theorem GroupsPresent.clear (hp : GroupsPresent state) : GroupsPresent state.clear :=
  hp.mapVals

omit [DecidableEq H] in
theorem GroupsPresent.advance (hp : GroupsPresent state) : GroupsPresent state.advance :=
  hp

theorem GroupsPresent.receive (hp : GroupsPresent state) {generation sequence : UInt64}
    {result : Except Unavailable Unit}
    (h : state.receive U maxEntries generation sequence event = some (state', result)) :
    GroupsPresent state' := by
  cases receive_cases h with
  | foreign => exact hp
  | gap => exact hp.fail _
  | ownedClear => exact hp.advance.fail _
  | cleared => exact hp.advance.clear
  | refused => exact hp.advance
  | failed => exact hp.advance.fail _
  | absorbed hgen hseq hev hun _ happ hmax => exact hp.advance.apply happ

omit [DecidableEq H] in
/-- A registration gives every group of the roster its empty maps. -/
theorem represented_registered (specs : List GroupSpec) (state : WorkerState H)
    (hspecs : state.specs = specs) (hgroups : state.groups =
      .ofList (specs.map fun g => (g.groupIdx, (.empty : GroupState H)))) :
    GroupsPresent state ∧ ∀ id g, state.groups.get? id = some g → g = .empty := by
  rw [GroupsPresent, hspecs, hgroups]
  constructor
  · intro spec hspec
    rw [FinMap.isSome_get?_ofList]
    exact List.mem_map_of_mem (List.mem_map_of_mem hspec)
  · intro id g hg
    refine FinMap.get?_ofList_all (P := (· = .empty)) (fun e he => ?_) hg
    obtain ⟨spec, -, rfl⟩ := List.mem_map.1 he
    rfl

theorem IndexRepresented.step {index index' : GroupBoundaryIndex H} {call : Call}
    (hi : IndexRepresented index) (h : step U index call = some index') :
    IndexRepresented index' ∧ index'.maxAncestryEntries = index.maxAncestryEntries := by
  have hset : ∀ (worker : WorkerWithDpRank) (state : WorkerState H),
      GroupsPresent state ∧ Representation index.maxAncestryEntries state →
      IndexRepresented { index with workers := index.workers.insert worker state } := by
    intro worker state hstate w s hw
    simp only [FinMap.get?_insert] at hw
    split at hw
    · cases hw
      exact hstate
    · exact hi w s hw
  cases call with
  | register worker generation specs =>
    cases h
    obtain ⟨hp, hempty⟩ := represented_registered specs
      { generation, nextSequence := 0, specs
        groups := .ofList (specs.map fun g => (g.groupIdx, (.empty : GroupState H)))
        unavailable := if validRoster specs then none else some .invalidManifest } rfl rfl
    exact ⟨hset worker _ ⟨hp, .of_wiped hempty⟩, rfl⟩
  | invalidate worker generation reason =>
    cases h
    unfold GroupBoundaryIndex.invalidate
    split
    · exact ⟨hi, rfl⟩
    · rename_i state hstate
      split
      · exact ⟨hset worker _ ⟨(hi worker state hstate).1.fail _, .fail _ _⟩, rfl⟩
      · exact ⟨hi, rfl⟩
  | remove worker =>
    cases h
    refine ⟨fun w state hw => ?_, rfl⟩
    simp only [GroupBoundaryIndex.remove, FinMap.get?_erase] at hw
    split at hw
    · cases hw
    · exact hi w state hw
  | apply worker generation sequence event =>
    simp only [GroupBoundary.step, Option.map_eq_some_iff] at h
    obtain ⟨⟨i₁, result⟩, happ, rfl⟩ := h
    unfold GroupBoundaryIndex.apply at happ
    split at happ
    · cases happ
      exact ⟨hi, rfl⟩
    · rename_i state hstate
      simp only [Option.map_eq_some_iff, Prod.mk.injEq] at happ
      obtain ⟨⟨state', r⟩, hreceive, rfl, rfl⟩ := happ
      obtain ⟨hp, hrep⟩ := hi worker state hstate
      exact ⟨hset worker state' ⟨hp.receive hreceive, hrep.receive hreceive⟩, rfl⟩

theorem IndexRepresented.run : ∀ {calls : List Call} {index index' : GroupBoundaryIndex H},
    IndexRepresented index → Runs.run (GroupBoundary.step U) index calls = some index' →
      IndexRepresented index' ∧ index'.maxAncestryEntries = index.maxAncestryEntries
  | [], index, index', hi, hr => by
    rw [Runs.run_nil, Option.some.injEq] at hr
    exact hr ▸ ⟨hi, rfl⟩
  | call :: calls, index, index', hi, hr => by
    obtain ⟨i₁, h₁, h₂⟩ := (Runs.run_cons_eq_some _).1 hr
    obtain ⟨hi₁, hmax₁⟩ := hi.step h₁
    obtain ⟨hi', hmax'⟩ := IndexRepresented.run hi₁ h₂
    exact ⟨hi', hmax'.trans hmax₁⟩

/-- **The representation invariant of the index.**  In every reachable state every worker has
it; and for a worker with a valid roster every event and every query returns. -/
theorem representation (U : BlockHashing H) {maxEntries : Nat} {calls : List Call}
    {index : GroupBoundaryIndex H}
    (hr : Runs.run (step U) (.new maxEntries) calls = some index)
    {worker : WorkerWithDpRank} {state : WorkerState H}
    (hw : index.workers.get? worker = some state) :
    Representation maxEntries state ∧ (validRoster state.specs = true →
      (∀ generation sequence event,
        (index.apply U worker generation sequence event).isSome = true) ∧
      ∀ generation tokens identity options,
        (index.lookup U worker generation tokens identity options).isSome = true) := by
  have hnew : IndexRepresented (GroupBoundaryIndex.new maxEntries : GroupBoundaryIndex H) :=
    fun _ _ h => by cases h
  obtain ⟨hi, hmax⟩ := hnew.run hr
  obtain ⟨hp, hrep⟩ := hi worker state hw
  have hmax' : index.maxAncestryEntries = maxEntries := hmax
  rw [hmax'] at hrep
  refine ⟨hrep, fun hv => ⟨fun generation sequence event => ?_,
    fun generation tokens identity options => ?_⟩⟩
  · unfold GroupBoundaryIndex.apply
    rw [hw]
    simp only [Option.isSome_map]
    rw [hmax']
    exact receive_isSome hrep hp hv generation sequence event
  · unfold GroupBoundaryIndex.lookup
    rw [hw]
    simp only
    split
    · rfl
    split
    · rfl
    split
    · rfl
    split
    · rfl
    split
    · rfl
    · rw [Option.isSome_map]
      exact allowedEnds_isSome _ _ _ _ _ hp

/-- A hybrid worker with a block in each of its groups. -/
theorem representation_hybridCalls : ∃ (index : GroupBoundaryIndex (List UInt32)) (state : _),
    Runs.run (step plainHashing) (.new 8) hybridCalls = some index ∧
    index.workers.get? ⟨1, 0⟩ = some state ∧ Representation 8 state ∧
    ∀ generation sequence event,
      (index.apply plainHashing ⟨1, 0⟩ generation sequence event).isSome = true := by
  obtain ⟨index, hr, state, hw, hv⟩ : ∃ index : GroupBoundaryIndex (List UInt32),
      Runs.run (step plainHashing) (.new 8) hybridCalls = some index ∧ ∃ state,
        index.workers.get? ⟨1, 0⟩ = some state ∧ validRoster state.specs = true :=
    ⟨_, rfl, _, rfl, by decide⟩
  obtain ⟨hrep, hreturns⟩ := representation plainHashing hr hw
  exact ⟨index, state, hr, hw, hrep, (hreturns hv).1⟩

end ReedCode.GroupBoundary
