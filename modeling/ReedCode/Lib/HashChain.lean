import ReedCode.Lib.CommonPrefix

/-!
# Chained hashes

The hash of a block is that of its own bytes, and for a later block the hash of the hash before it
and its own.

* `chain` — the hashes of a list of blocks; `hashed` — what is hashed for them.
* `chain_take` — **where what is hashed does not collide, equal hashes have equal blocks**.
* `commonLength_chain` — chains differ first where the blocks do.
-/

set_option autoImplicit false

universe u v w

namespace ReedCode.HashChain

variable {α : Type u} {β : Type v} {δ : Type w} (hash : β → δ) (leaf : α → β) (node : δ → δ → β)

/-- The hash of a block behind `prev`. -/
def sequence (prev : Option δ) (block : α) : δ :=
  match prev with
  | none => hash (leaf block)
  | some p => hash (node p (hash (leaf block)))

def chain : Option δ → List α → List δ
  | _, [] => []
  | prev, block :: blocks =>
    sequence hash leaf node prev block :: chain (some (sequence hash leaf node prev block)) blocks

/-- What is hashed for a block behind `prev`. -/
def hashedAt (prev : Option δ) (block : α) : List β :=
  match prev with
  | none => [leaf block]
  | some p => [leaf block, node p (hash (leaf block))]

def hashed : Option δ → List α → List β
  | _, [] => []
  | prev, block :: blocks =>
    hashedAt hash leaf node prev block ++
      hashed (some (sequence hash leaf node prev block)) blocks

theorem length_chain : ∀ (prev : Option δ) (blocks : List α),
    (chain hash leaf node prev blocks).length = blocks.length
  | _, [] => rfl
  | _, _ :: blocks => congrArg (· + 1) (length_chain _ blocks)

variable {hash leaf node}

/-- No two different ones of these have the same hash. -/
def CollisionFree (hash : β → δ) (bytes : List β) : Prop :=
  ∀ a ∈ bytes, ∀ b ∈ bytes, hash a = hash b → a = b

theorem CollisionFree.mono {bytes bytes' : List β} (h : CollisionFree hash bytes')
    (hsub : ∀ a ∈ bytes, a ∈ bytes') : CollisionFree hash bytes :=
  fun a ha b hb => h a (hsub a ha) b (hsub b hb)

section Injective

variable {Fits : α → Prop}
  (hleaf : ∀ a b, Fits a → Fits b → leaf a = leaf b → a = b)
  (hnode : ∀ p a b, node p a = node p b → a = b)

include hleaf hnode

/-- Blocks with one hash behind one hash are the same. -/
theorem sequence_inj {prev : Option δ} {a b : α} (ha : Fits a) (hb : Fits b)
    (hfree : CollisionFree hash (hashedAt hash leaf node prev a ++ hashedAt hash leaf node prev b))
    (h : sequence hash leaf node prev a = sequence hash leaf node prev b) : a = b := by
  cases prev with
  | none => exact hleaf a b ha hb (hfree _ (by simp [hashedAt]) _ (by simp [hashedAt]) h)
  | some p =>
    have hpair := hfree _ (by simp [hashedAt]) _ (by simp [hashedAt]) h
    have hlocal := hnode p _ _ hpair
    exact hleaf a b ha hb (hfree _ (by simp [hashedAt]) _ (by simp [hashedAt]) hlocal)

/-- **Equal hashes have equal blocks**, as far as they go. -/
theorem chain_take : ∀ {prev : Option δ} {xs ys : List α}, (∀ a ∈ xs, Fits a) → (∀ b ∈ ys, Fits b) →
    CollisionFree hash (hashed hash leaf node prev xs ++ hashed hash leaf node prev ys) →
    ∀ {n : Nat}, (chain hash leaf node prev xs).take n = (chain hash leaf node prev ys).take n ↔
      xs.take n = ys.take n
  | _, _, _, _, _, _, 0 => by simp
  | _, [], [], _, _, _, _ + 1 => by simp [chain]
  | _, [], _ :: _, _, _, _, _ + 1 => by simp [chain]
  | _, _ :: _, [], _, _, _, _ + 1 => by simp [chain]
  | prev, a :: xs, b :: ys, ha, hb, hfree, n + 1 => by
    rw [List.forall_mem_cons] at ha hb
    rw [chain, chain, List.take_succ_cons, List.take_succ_cons, List.take_succ_cons,
      List.take_succ_cons, List.cons.injEq, List.cons.injEq]
    have hhead : sequence hash leaf node prev a = sequence hash leaf node prev b ↔ a = b := by
      refine ⟨sequence_inj hleaf hnode ha.1 hb.1 (hfree.mono ?_), fun h => h ▸ rfl⟩
      intro c hc
      rw [hashed, hashed]
      rcases List.mem_append.1 hc with hc | hc
      · exact List.mem_append_left _ (List.mem_append_left _ hc)
      · exact List.mem_append_right _ (List.mem_append_left _ hc)
    rw [hhead]
    refine and_congr_right fun hab => ?_
    subst hab
    refine chain_take ha.2 hb.2 (hfree.mono ?_)
    intro c hc
    rw [hashed, hashed]
    rcases List.mem_append.1 hc with hc | hc
    · exact List.mem_append_left _ (List.mem_append_right _ hc)
    · exact List.mem_append_right _ (List.mem_append_right _ hc)

/-- Chains are equal for equal blocks only. -/
theorem chain_inj {prev : Option δ} {xs ys : List α} (hxs : ∀ a ∈ xs, Fits a) (hys : ∀ b ∈ ys, Fits b)
    (hfree : CollisionFree hash (hashed hash leaf node prev xs ++ hashed hash leaf node prev ys)) :
    chain hash leaf node prev xs = chain hash leaf node prev ys ↔ xs = ys := by
  refine ⟨fun h => ?_, fun h => h ▸ rfl⟩
  have hlen := congrArg List.length h
  rw [length_chain, length_chain] at hlen
  have htake := (chain_take hleaf hnode hxs hys hfree (n := xs.length)).1 (congrArg _ h)
  rwa [List.take_length, hlen, List.take_length] at htake

/-- **Chains differ first where the blocks do.** -/
theorem commonLength_chain [DecidableEq α] [DecidableEq δ] {prev : Option δ} {xs ys : List α}
    (hxs : ∀ a ∈ xs, Fits a) (hys : ∀ b ∈ ys, Fits b)
    (hfree : CollisionFree hash (hashed hash leaf node prev xs ++ hashed hash leaf node prev ys)) :
    Lists.commonLength (chain hash leaf node prev xs) (chain hash leaf node prev ys) =
      Lists.commonLength xs ys := by
  refine eq_of_forall_le_iff fun n => ?_
  rw [← Lists.shared_iff, ← Lists.shared_iff, Lists.Shared, Lists.Shared, length_chain,
    length_chain, chain_take hleaf hnode hxs hys hfree]

end Injective

end ReedCode.HashChain
