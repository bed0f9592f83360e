import ReedCode.Headroom.Handlers
import Mathlib.Algebra.Order.Ring.Int

/-!
# Cache integrity

What the invariant says of the cache at every point of a run.
-/

set_option autoImplicit false

universe u

namespace ReedCode.Headroom

variable {T : Type u} [Zero T] {κ : Type u} [DecidableEq κ]

/-- What is claimed of the cache. -/
structure Integrity (S : Setup T κ) (s : Simulation T κ) : Prop where
  capacity : s.cache.size ≤ S.workload.cacheBlocks
  spared : ∀ key admitted, .evicted key admitted ∈ s.history → key ∉ admitted
  idle : s.busy = false → ∀ key, s.cache.get? key ≠ some .pending
  running : ∀ event ∈ s.events, ∀ job, event.action = .finished job →
    ∀ key ∈ job.keys, (s.cache.get? key).isSome
  credited : ∀ keys : List κ, ∀ key ∈ keys.take (cachedPrefix s.cache keys), Retained key s.history

variable [LinearOrder T] [Add T] [Sub T] [Mul T] [NatCast T] {S : Setup T κ}

/-- **Cache integrity**: at every point of a run the cache is within its bound, no admitted key
is evicted, nothing is pending on an idle GPU, the running job has its keys and every credited
block was computed and kept; and no step fails, so that a victim is always found. -/
theorem cache_integrity (hD : S.digest.CollisionFree) (hw : validate S.workload = .ok ())
    {c : Config T κ} (hc : Reachable S c) : Integrity S c.sim ∧ (next S c).isSome := by
  have h := Reachable.inv hD (validate_eq_ok.1 hw) hc
  refine ⟨⟨h.cache.size_le, h.cache.spared, fun hidle key hkey => ?_,
    fun event hevent job haction key hkey => ?_, fun keys key hkey => h.cache.credited hkey⟩, ?_⟩
  · obtain ⟨job, hjob, -⟩ := h.cache.pending key hkey
    rw [h.jobs_eq_nil hidle] at hjob
    cases hjob
  · refine h.cache.resident job (List.mem_filterMap.2 ⟨event, hevent, ?_⟩) key hkey
    rw [Event.job?, haction]
  · obtain ⟨c', hc', -⟩ := h.next hD (validate_eq_ok.1 hw)
    rw [hc']
    rfl

/-! ## A small workload -/

/-- Keys that are the blocks themselves. -/
def pathDigest : Digest (List String) := ⟨[], fun parent block => parent ++ [block]⟩

theorem getLast?_keysFrom (parent : List String) : ∀ blocks : List String, blocks ≠ [] →
    (pathDigest.keysFrom parent blocks).getLast? = some (parent ++ blocks)
  | [], h => absurd rfl h
  | [block], _ => rfl
  | block :: next :: blocks, _ => by
    have ih := getLast?_keysFrom (parent ++ [block]) (next :: blocks) (List.cons_ne_nil _ _)
    rw [Digest.keysFrom] at ih ⊢
    rw [Digest.keysFrom, List.getLast?_cons_cons]
    refine ih.trans ?_
    rw [List.append_assoc]
    rfl

theorem getLast?_blockKeys (blocks : List String) :
    (pathDigest.blockKeys blocks).getLast? = if blocks = [] then none else some blocks := by
  cases blocks with
  | nil => rfl
  | cons block blocks =>
    rw [if_neg (List.cons_ne_nil _ _)]
    exact getLast?_keysFrom [] (block :: blocks) (List.cons_ne_nil _ _)

theorem pathDigest_collisionFree : pathDigest.CollisionFree := by
  intro xs ys h
  rw [getLast?_blockKeys, getLast?_blockKeys] at h
  split at h <;> split at h <;> simp_all

def sampleWorkload : Workload Int where
  schemaVersion := 1
  kind := "synthetic_cost_model"
  cacheBlocks := 3
  speculativeBlockBudget := 4
  speculativeChunkBlocks := 1
  prefillBlockMs := 2
  horizonMs := 40
  workflows := [
    { id := "agent", turns := [
      { promptBlocks := ["s", "u"], generatedBlocks := ["g"], decodeMs := 1 },
      { promptBlocks := ["s", "u", "t"], generatedBlocks := [], decodeMs := 1, waitMs := 9,
        intent := ["s", "v"], updates := [⟨3, .prefixBlocks ["s", "u"]⟩] }] }]

def sampleSetup : Setup Int (List String) := ⟨pathDigest, sampleWorkload, .eager⟩

theorem sampleWorkload_valid : validate sampleSetup.workload = .ok () := by decide

/-- A preparation that runs behind a request of the same agent, which evicted a key. -/
theorem cache_integrity_sample : ∃ c, Runs.iterate (next sampleSetup) 13 (start sampleSetup) = some c ∧
    c.sim.busy = true ∧ Integrity sampleSetup c.sim ∧ (next sampleSetup c).isSome := by
  obtain ⟨c, hc⟩ := Option.isSome_iff_exists.1
    (show (Runs.iterate (next sampleSetup) 13 (start sampleSetup)).isSome by decide +kernel)
  have hbusy : (Runs.iterate (next sampleSetup) 13 (start sampleSetup)).any (·.sim.busy) = true := by
    decide +kernel
  rw [hc] at hbusy
  exact ⟨c, hc, hbusy, cache_integrity pathDigest_collisionFree sampleWorkload_valid
    (Runs.Reachable.iterate .start hc)⟩

end ReedCode.Headroom
