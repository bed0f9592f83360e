import Mathlib.Data.Finset.Card
import Mathlib.Data.Finset.Filter
import Mathlib.Data.Rat.Floor
import ReedCode.Lib.Interning
import ReedCode.Value

/-!
# Block identities of the readiness report

`BlockIdentity` of `kv-footprint/reproduce.py`, and `resolve_blocks` and `classify` of
`gpu-readiness/kv_report.py`.

* `blocks` — the ids of the full blocks of a prompt.
* `walk`, `resolve`, `resolveBlocks` — the ids of published blocks, through their parents.
* `classify` — the counts over a ledger.
-/

set_option autoImplicit false

namespace ReedCode.KvReport

open Interning (Table setdefault internPath)

universe u

/-! ## Identities -/

/-- `nodes` gives an id to a block of tokens below a parent. -/
structure BlockIdentity where
  blockSize : Nat
  nodes : Table (List Int)

def BlockIdentity.new (blockSize : Value) : Except String BlockIdentity :=
  match blockSize with
  | .int n =>
    if n ≤ 0 then .error "block_size must be a positive integer" else .ok ⟨n.toNat, .empty⟩
  | _ => .error "block_size must be a positive integer"

/-- `len(range(0, stop, step))`. -/
def rangeLength (stop step : Nat) : Nat := (stop + step - 1) / step

/-- The full blocks of a prompt. -/
def chunks (blockSize : Nat) (tokens : List Int) : List (List Int) :=
  (List.range (rangeLength (tokens.length + 1 - blockSize) blockSize)).map fun i =>
    (tokens.drop (i * blockSize)).take blockSize

/-- `identity.blocks(tokens)`: the ids in the order of the blocks, and the identity afterwards. -/
def BlockIdentity.blockIds (identity : BlockIdentity) (tokens : List Int) :
    List Nat × BlockIdentity :=
  let (ids, nodes) := internPath identity.nodes 0 (chunks identity.blockSize tokens)
  (ids, { identity with nodes := nodes })

def BlockIdentity.blocks (identity : BlockIdentity) (tokens : List Int) :
    Finset Nat × BlockIdentity :=
  let (ids, identity) := identity.blockIds tokens
  (ids.toFinset, identity)

/-! ## Published blocks -/

variable {κ : Type u} [DecidableEq κ]

/-- A published block: the key of its parent, and its tokens. -/
structure Record (κ : Type u) where
  parent : Option κ
  tokenIds : List Value
  deriving DecidableEq

/-- An unsigned number of 32 bits; `True` and `False` are none. -/
def validToken : Value → Option Int
  | .int n => if 0 ≤ n ∧ n ≤ 0xffffffff then some n else none
  | _ => none

def blockTokens (tokenIds : List Value) : Option (List Int) :=
  if tokenIds.length = 16 then tokenIds.mapM validToken else none

section Resolve

variable (history : FinMap κ (Record κ))

theorem unseen_lt {seen : List κ} {key : κ} {row : Record κ} (hrow : history.get? key = some row)
    (hseen : key ∉ seen) : (history.keys.filter fun k => k ∉ key :: seen).length <
      (history.keys.filter fun k => k ∉ seen).length := by
  have hfewer : (history.keys.filter fun k => k ∉ key :: seen) =
      (history.keys.filter fun k => k ∉ seen).filter fun k => k ≠ key := by
    rw [List.filter_filter]
    refine List.filter_congr fun k _ => ?_
    simp [List.mem_cons, not_or]
  have hkey : key ∈ history.keys.filter fun k => k ∉ seen :=
    List.mem_filter.2 ⟨FinMap.mem_keys_of_get? hrow, decide_eq_true hseen⟩
  rw [hfewer, List.length_filter_lt_length_iff_exists]
  exact ⟨key, hkey, by simp⟩

/-- The loop of `resolve`: from a key up to the root or to a key that is resolved.  The result is
the id there, and what is pending. -/
def walk (resolved : FinMap κ Nat) :
    Option κ → List κ → List (κ × List Int) → Except String (Nat × List (κ × List Int))
  | none, _, pending => .ok (0, pending)
  | some key, seen, pending =>
    match resolved.get? key with
    | some id => .ok (id, pending)
    | none =>
      if hseen : key ∈ seen then .error "cycle_or_missing_parent"
      else
        match hrow : history.get? key with
        | none => .error "cycle_or_missing_parent"
        | some row =>
          match blockTokens row.tokenIds with
          | none => .error "invalid_block_tokens"
          | some tokens => walk resolved row.parent (key :: seen) (pending ++ [(key, tokens)])
termination_by _ seen _ => (history.keys.filter fun k => k ∉ seen).length
decreasing_by exact unseen_lt history hrow hseen

/-- The state of the loops. -/
structure Resolution (κ : Type u) [DecidableEq κ] where
  resolved : FinMap κ Nat
  unresolved : FinMap κ String
  identity : BlockIdentity

/-- One pending block, below the id of its parent. -/
def assign (st : Nat × Resolution κ) (entry : κ × List Int) : Nat × Resolution κ :=
  let (id, nodes) := setdefault st.2.identity.nodes (st.1, entry.2)
  (id, { st.2 with
    resolved := st.2.resolved.insert entry.1 id
    identity := { st.2.identity with nodes := nodes } })

def resolve (st : Resolution κ) (key : κ) : Except String (Resolution κ) := do
  let (parent, pending) ← walk history st.resolved (some key) [] []
  return (pending.reverse.foldl assign (parent, st)).2

def resolveKey (st : Resolution κ) (key : κ) : Resolution κ :=
  match resolve history st key with
  | .ok st => st
  | .error error => { st with unresolved := st.unresolved.insert key error }

def resolveBlocks (identity : BlockIdentity) : Resolution κ :=
  history.keys.foldl (resolveKey history) ⟨.empty, .empty, identity⟩

end Resolve

/-! ## Counts -/

structure Ledger (κ : Type u) [DecidableEq κ] where
  blocks : FinMap κ (Record κ)
  history : FinMap κ (Record κ)
  completeSinceClear : Bool

inductive Category where
  | sharedRealAndWarm
  | realOnly
  | warmupOnly
  | otherKnown
  | unresolvedAncestry
  deriving DecidableEq, Repr

def Category.all : List Category :=
  [.sharedRealAndWarm, .realOnly, .warmupOnly, .otherKnown, .unresolvedAncestry]

/-- The local variables of the loop over `ledger.blocks`. -/
structure Tally where
  counts : Category → Nat
  olderReal : Nat
  canonical : Finset Nat

def Tally.add (tally : Tally) (category : Category) : Tally :=
  { tally with counts := fun c => tally.counts c + if c = category then 1 else 0 }

/-- The category of a block with an id. -/
def categoryOf (real warm : Finset Nat) (node : Nat) : Category :=
  if node ∈ real ∧ node ∈ warm then .sharedRealAndWarm
  else if node ∈ real then .realOnly
  else if node ∈ warm then .warmupOnly
  else .otherKnown

def Tally.block (resolved : FinMap κ Nat) (real warm current : Finset Nat) (tally : Tally)
    (key : κ) : Tally :=
  match resolved.get? key with
  | none => tally.add .unresolvedAncestry
  | some node =>
    { tally.add (categoryOf real warm node) with
      canonical := insert node tally.canonical
      olderReal := tally.olderReal + if node ∈ real ∧ node ∉ current then 1 else 0 }

structure Classification (κ : Type u) [DecidableEq κ] where
  counts : Category → Nat
  publishedBlockEntries : Nat
  canonicalPrefixes : Nat
  olderRealEntriesOutsideCurrentInput : Nat
  currentRealTokens : Nat
  currentRealFullBlocks : Nat
  warmupOnlyToCurrentFullBlocks : Option Rat
  warmupOnlyToCurrentTokens : Option Rat
  attributable : Bool
  unresolved : FinMap κ String

def classify (ledger : Ledger κ) (identity : BlockIdentity) (real warm current : Finset Nat)
    (totalTokens : Nat) : Except String (Classification κ × BlockIdentity) :=
  let resolution := resolveBlocks ledger.history identity
  let tally := ledger.blocks.keys.foldl (Tally.block resolution.resolved real warm current)
    ⟨fun _ => 0, 0, ∅⟩
  if (Category.all.map tally.counts).sum ≠ ledger.blocks.size then
    .error "Published block classification did not partition the set"
  else
    let compatible := ledger.completeSinceClear && tally.counts .unresolvedAncestry = 0
    let warmupOnly : Rat := tally.counts .warmupOnly
    .ok ({
      counts := tally.counts
      publishedBlockEntries := ledger.blocks.size
      canonicalPrefixes := tally.canonical.card
      olderRealEntriesOutsideCurrentInput := tally.olderReal
      currentRealTokens := totalTokens
      currentRealFullBlocks := current.card
      warmupOnlyToCurrentFullBlocks :=
        if compatible ∧ current.card ≠ 0 then some (warmupOnly / current.card) else none
      warmupOnlyToCurrentTokens :=
        if compatible ∧ totalTokens ≠ 0 then some (16 * warmupOnly / totalTokens) else none
      attributable := compatible
      unresolved := resolution.unresolved.filter fun k _ => ledger.blocks.contains k },
      resolution.identity)

end ReedCode.KvReport
