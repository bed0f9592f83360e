import ReedCode.Lib.Runs
import Mathlib.Data.List.Induction
import Mathlib.Order.Defs.LinearOrder

/-!
# Workloads

The synthetic workloads of the scheduling model: block keys, the fields of a workload and
`validate`.

* The JSON types of the fields are the types here, the defaults of `get` are default values, and
  the two admitted shapes of an update are the constructors of `Change`.
* The digest that chains the block keys is a parameter (`Digest`).
* `validate_eq_ok` — what `validate` accepts, as one structure.
-/

set_option autoImplicit false

universe u

namespace ReedCode.Headroom

/-! ## Block keys -/

/-- The key of no block, and `sha256(json.dumps([parent, block]))`. -/
structure Digest (κ : Type u) where
  root : κ
  extend : κ → String → κ

namespace Digest

variable {κ : Type u} (D : Digest κ)

def keysFrom : κ → List String → List κ
  | _, [] => []
  | parent, block :: blocks => D.extend parent block :: keysFrom (D.extend parent block) blocks

def blockKeys (blocks : List String) : List κ := D.keysFrom D.root blocks

/-- Different block lists end in different keys. -/
def CollisionFree : Prop := ∀ xs ys : List String,
  (D.blockKeys xs).getLast? = (D.blockKeys ys).getLast? → xs = ys

theorem length_keysFrom : ∀ (blocks : List String) (parent : κ),
    (D.keysFrom parent blocks).length = blocks.length
  | [], _ => rfl
  | block :: blocks, parent => by
    rw [keysFrom, List.length_cons, List.length_cons, length_keysFrom blocks]

@[simp] theorem length_blockKeys (blocks : List String) :
    (D.blockKeys blocks).length = blocks.length := D.length_keysFrom blocks D.root

theorem keysFrom_append : ∀ (xs ys : List String) (parent : κ),
    ∃ key, D.keysFrom parent (xs ++ ys) = D.keysFrom parent xs ++ D.keysFrom key ys
  | [], _, parent => ⟨parent, rfl⟩
  | x :: xs, ys, parent => by
    obtain ⟨key, h⟩ := keysFrom_append xs ys (D.extend parent x)
    exact ⟨key, by rw [List.cons_append, keysFrom, keysFrom, h, List.cons_append]⟩

/-- The keys of a prompt are the first keys of the prompt and what is generated from it. -/
theorem blockKeys_prefix (xs ys : List String) : D.blockKeys xs <+: D.blockKeys (xs ++ ys) := by
  obtain ⟨key, h⟩ := D.keysFrom_append xs ys D.root
  exact ⟨D.keysFrom key ys, h.symm⟩

/-- Every key is the last one of a part of the blocks. -/
theorem exists_of_mem_blockKeys {key : κ} {blocks : List String} (h : key ∈ D.blockKeys blocks) :
    ∃ front, front <+: blocks ∧ (D.blockKeys front).getLast? = some key := by
  induction blocks using List.reverseRecOn with
  | nil => cases h
  | append_singleton blocks block ih =>
    obtain ⟨parent, happend⟩ := D.keysFrom_append blocks [block] D.root
    have hlast : D.blockKeys (blocks ++ [block]) = D.blockKeys blocks ++ [D.extend parent block] :=
      happend
    rw [hlast, List.mem_append, List.mem_singleton] at h
    rcases h with h | rfl
    · obtain ⟨front, hfront, hkey⟩ := ih h
      exact ⟨front, hfront.trans (List.prefix_append _ _), hkey⟩
    · exact ⟨blocks ++ [block], List.prefix_refl _, by rw [hlast, List.getLast?_concat]⟩

variable {D}

/-- **The keys of a block list are distinct.** -/
theorem CollisionFree.nodup (hD : D.CollisionFree) (blocks : List String) :
    (D.blockKeys blocks).Nodup := by
  induction blocks using List.reverseRecOn with
  | nil => exact List.nodup_nil
  | append_singleton blocks block ih =>
    obtain ⟨parent, happend⟩ := D.keysFrom_append blocks [block] D.root
    have hlast : D.blockKeys (blocks ++ [block]) = D.blockKeys blocks ++ [D.extend parent block] :=
      happend
    rw [hlast, List.nodup_append]
    refine ⟨ih, List.pairwise_singleton _ _, ?_⟩
    rintro a ha b hb rfl
    rw [List.mem_singleton.1 hb] at ha
    obtain ⟨front, hfront, hkey⟩ := D.exists_of_mem_blockKeys ha
    have heq := hD front (blocks ++ [block]) (by rw [hkey, hlast, List.getLast?_concat])
    have hle := hfront.length_le
    rw [heq, List.length_append, List.length_singleton] at hle
    omega

end Digest

/-! ## The fields of a workload -/

inductive Change
  | prefixBlocks (blocks : List String)
  | cancel
  deriving DecidableEq

/-- The revised prefix; a cancellation has none. -/
def Change.blocks : Change → List String
  | prefixBlocks blocks => blocks
  | cancel => []

structure Update (T : Type u) where
  atMs : T
  change : Change
  deriving DecidableEq

structure Turn (T : Type u) [Zero T] where
  promptBlocks : List String
  generatedBlocks : List String
  decodeMs : T
  waitMs : T := 0
  intent : List String := []
  updates : List (Update T) := []
  deriving DecidableEq

/-- What may be prepared during the wait for a turn. -/
def Turn.candidates {T : Type u} [Zero T] (turn : Turn T) : List (List String) :=
  turn.intent :: turn.updates.map fun update => update.change.blocks

structure Workflow (T : Type u) [Zero T] where
  id : String
  arrivalMs : T := 0
  turns : List (Turn T)
  deriving DecidableEq

structure Workload (T : Type u) [Zero T] where
  schemaVersion : Nat
  kind : String
  cacheBlocks : Nat
  speculativeBlockBudget : Nat
  speculativeChunkBlocks : Nat
  prefillBlockMs : T
  horizonMs : T
  workflows : List (Workflow T)

/-! ## Validation -/

variable {T : Type u} [LinearOrder T] [Zero T]

def number (value : T) (name : String) (positive : Bool) : Except String Unit :=
  Except.failIf (value < 0 ∨ positive = true ∧ value = 0) ("Invalid " ++ name)

def blocks (value : List String) : Except String Unit :=
  Except.failIf (∃ block ∈ value, block = "") "Blocks must be a list of nonempty strings"

/-- The loop over the updates; `last` is the time of the one before. -/
def validateUpdates (waitMs : T) : Option T → List (Update T) → Except String Unit
  | _, [] => .ok ()
  | last, update :: updates => do
    number update.atMs "update at_ms" false
    Except.failIf ((∃ time ∈ last, update.atMs < time) ∨ waitMs < update.atMs)
      "Updates must be ordered and occur within the tool wait"
    blocks update.change.blocks
    validateUpdates waitMs (some update.atMs) updates

def validateTurn (cacheBlocks index : Nat) (turn : Turn T) : Except String Unit := do
  blocks turn.promptBlocks
  blocks turn.generatedBlocks
  Except.failIf (turn.promptBlocks = []) "A prompt must contain at least one block"
  Except.failIf (cacheBlocks < (turn.promptBlocks ++ turn.generatedBlocks).length)
    "Each active request must fit in cache"
  number turn.decodeMs "decode_ms" true
  number turn.waitMs "wait_ms" false
  Except.failIf (index = 0 ∧ (turn.intent ≠ [] ∨ turn.updates ≠ []))
    "First turns have no preceding tool wait"
  blocks turn.intent
  validateUpdates turn.waitMs none turn.updates
  Except.failIf (∃ candidate ∈ turn.candidates, cacheBlocks < candidate.length)
    "Preparation must fit in cache"

def validateTurns (cacheBlocks : Nat) : Nat → List (Turn T) → Except String Unit
  | _, [] => .ok ()
  | index, turn :: turns => do
    validateTurn cacheBlocks index turn
    validateTurns cacheBlocks (index + 1) turns

/-- The loop over the workflows; `ids` are those seen. -/
def validateWorkflows (cacheBlocks : Nat) : List String → List (Workflow T) → Except String Unit
  | _, [] => .ok ()
  | ids, workflow :: workflows => do
    Except.failIf (workflow.id = "" ∨ workflow.id ∈ ids) "Workflow IDs must be unique"
    number workflow.arrivalMs "arrival_ms" false
    Except.failIf (workflow.turns = []) "Each workflow needs turns"
    validateTurns cacheBlocks 0 workflow.turns
    validateWorkflows cacheBlocks (workflow.id :: ids) workflows

def validate (workload : Workload T) : Except String Unit := do
  Except.failIf (workload.schemaVersion ≠ 1 ∨ workload.kind ≠ "synthetic_cost_model")
    "Use a schema_version 1 synthetic_cost_model workload"
  Except.failIf (workload.cacheBlocks < 1) "cache_blocks must be a positive integer"
  Except.failIf (workload.speculativeBlockBudget < 1)
    "speculative_block_budget must be a positive integer"
  Except.failIf (workload.speculativeChunkBlocks < 1)
    "speculative_chunk_blocks must be a positive integer"
  number workload.prefillBlockMs "prefill_block_ms" true
  number workload.horizonMs "horizon_ms" true
  Except.failIf (workload.workflows = []) "At least one workflow is required"
  validateWorkflows workload.cacheBlocks [] workload.workflows

/-! ## What is accepted -/

def Named (blocks : List String) : Prop := ∀ block ∈ blocks, block ≠ ""

structure Update.Valid (waitMs : T) (update : Update T) : Prop where
  at_nonneg : 0 ≤ update.atMs
  at_le : update.atMs ≤ waitMs
  named : Named update.change.blocks

structure Turn.Valid (cacheBlocks index : Nat) (turn : Turn T) : Prop where
  prompt_named : Named turn.promptBlocks
  generated_named : Named turn.generatedBlocks
  prompt_ne_nil : turn.promptBlocks ≠ []
  fits : (turn.promptBlocks ++ turn.generatedBlocks).length ≤ cacheBlocks
  decode_pos : 0 < turn.decodeMs
  wait_nonneg : 0 ≤ turn.waitMs
  first : index = 0 → turn.intent = [] ∧ turn.updates = []
  intent_named : Named turn.intent
  updates : ∀ update ∈ turn.updates, update.Valid turn.waitMs
  ordered : (turn.updates.map (·.atMs)).Pairwise (· ≤ ·)
  candidates_fit : ∀ candidate ∈ turn.candidates, candidate.length ≤ cacheBlocks

structure Workflow.Valid (cacheBlocks : Nat) (workflow : Workflow T) : Prop where
  id_ne : workflow.id ≠ ""
  arrival_nonneg : 0 ≤ workflow.arrivalMs
  turns_ne_nil : workflow.turns ≠ []
  turns : ∀ turn ∈ workflow.turns.zipIdx, turn.1.Valid cacheBlocks turn.2

structure Workload.Valid (workload : Workload T) : Prop where
  schema : workload.schemaVersion = 1 ∧ workload.kind = "synthetic_cost_model"
  cache_pos : 1 ≤ workload.cacheBlocks
  budget_pos : 1 ≤ workload.speculativeBlockBudget
  chunk_pos : 1 ≤ workload.speculativeChunkBlocks
  prefill_pos : 0 < workload.prefillBlockMs
  horizon_pos : 0 < workload.horizonMs
  workflows_ne_nil : workload.workflows ≠ []
  workflows : ∀ workflow ∈ workload.workflows, workflow.Valid workload.cacheBlocks
  distinct : (workload.workflows.map (·.id)).Nodup

theorem number_eq_ok {value : T} {name : String} {u : Unit} :
    number value name false = .ok u ↔ 0 ≤ value := by
  simp [number]

theorem number_positive_eq_ok {value : T} {name : String} {u : Unit} :
    number value name true = .ok u ↔ 0 < value := by
  simp only [number, Except.failIf_eq_ok, true_and, not_or, not_lt]
  exact ⟨fun h => lt_of_le_of_ne h.1 (Ne.symm h.2), fun h => ⟨h.le, h.ne'⟩⟩

theorem blocks_eq_ok {value : List String} {u : Unit} : blocks value = .ok u ↔ Named value := by
  simp only [blocks, Named, Except.failIf_eq_ok, not_exists, not_and, ne_eq]

theorem validateUpdates_eq_ok {waitMs : T} {u : Unit} : ∀ {updates : List (Update T)}
    {last : Option T}, validateUpdates waitMs last updates = .ok u ↔
      (∀ update ∈ updates, update.Valid waitMs) ∧ (updates.map (·.atMs)).Pairwise (· ≤ ·) ∧
        ∀ time ∈ last, ∀ update ∈ updates, time ≤ update.atMs
  | [], last => by simp [validateUpdates]
  | update :: updates, last => by
    simp only [validateUpdates, Except.bind_eq_ok_iff, number_eq_ok, blocks_eq_ok,
      Except.failIf_eq_ok, exists_const, validateUpdates_eq_ok, Option.mem_def, not_or, not_exists,
      not_and, not_lt, Option.some.injEq, forall_eq', List.forall_mem_cons, List.map_cons,
      List.pairwise_cons, List.mem_map, forall_exists_index, and_imp, forall_apply_eq_imp_iff₂]
    constructor
    · rintro ⟨hnonneg, ⟨hlast, hwait⟩, hnamed, hvalid, hordered, hnext⟩
      exact ⟨⟨⟨hnonneg, hwait, hnamed⟩, hvalid⟩, ⟨hnext, hordered⟩, fun time htime =>
        ⟨hlast time htime, fun u hu => le_trans (hlast time htime) (hnext u hu)⟩⟩
    · rintro ⟨⟨⟨hnonneg, hwait, hnamed⟩, hvalid⟩, ⟨hnext, hordered⟩, hlast⟩
      exact ⟨hnonneg, ⟨fun time htime => (hlast time htime).1, hwait⟩, hnamed, hvalid, hordered,
        hnext⟩

theorem validateTurn_eq_ok {cacheBlocks index : Nat} {turn : Turn T} {u : Unit} :
    validateTurn cacheBlocks index turn = .ok u ↔ turn.Valid cacheBlocks index := by
  simp only [validateTurn, Except.bind_eq_ok_iff, number_eq_ok, number_positive_eq_ok, blocks_eq_ok,
    Except.failIf_eq_ok, exists_const, validateUpdates_eq_ok, not_exists, not_and, not_lt, not_or,
    Classical.not_not]
  constructor
  · rintro ⟨hp, hg, hne, hfits, hdecode, hwait, hfirst, hintent, ⟨hupdates, hordered, -⟩, hcand⟩
    exact ⟨hp, hg, hne, hfits, hdecode, hwait, hfirst, hintent, hupdates, hordered, hcand⟩
  · rintro ⟨hp, hg, hne, hfits, hdecode, hwait, hfirst, hintent, hupdates, hordered, hcand⟩
    exact ⟨hp, hg, hne, hfits, hdecode, hwait, hfirst, hintent,
      ⟨hupdates, hordered, fun _ h => by cases h⟩, hcand⟩

theorem validateTurns_eq_ok {cacheBlocks : Nat} {u : Unit} : ∀ {turns : List (Turn T)} {index : Nat},
    validateTurns cacheBlocks index turns = .ok u ↔
      ∀ turn ∈ turns.zipIdx index, turn.1.Valid cacheBlocks turn.2
  | [], index => by simp [validateTurns]
  | turn :: turns, index => by
    simp only [validateTurns, Except.bind_eq_ok_iff, validateTurn_eq_ok, exists_const,
      validateTurns_eq_ok, List.zipIdx_cons, List.forall_mem_cons]

theorem validateWorkflows_eq_ok {cacheBlocks : Nat} {u : Unit} : ∀ {workflows : List (Workflow T)}
    {ids : List String}, validateWorkflows cacheBlocks ids workflows = .ok u ↔
      (∀ workflow ∈ workflows, workflow.Valid cacheBlocks) ∧ (workflows.map (·.id)).Nodup ∧
        ∀ workflow ∈ workflows, workflow.id ∉ ids
  | [], ids => by simp [validateWorkflows]
  | workflow :: workflows, ids => by
    simp only [validateWorkflows, Except.bind_eq_ok_iff, number_eq_ok, Except.failIf_eq_ok,
      exists_const, validateTurns_eq_ok, validateWorkflows_eq_ok, not_or, List.forall_mem_cons,
      List.map_cons, List.nodup_cons, List.mem_map, not_exists, not_and]
    constructor
    · rintro ⟨⟨hid, hnew⟩, harrival, hne, hturns, hvalid, hn, hids⟩
      simp only [List.mem_cons, not_or] at hids
      exact ⟨⟨⟨hid, harrival, hne, hturns⟩, hvalid⟩, ⟨fun w hw => (hids w hw).1, hn⟩, hnew,
        fun w hw => (hids w hw).2⟩
    · rintro ⟨⟨⟨hid, harrival, hne, hturns⟩, hvalid⟩, ⟨hdistinct, hn⟩, hnew, hids⟩
      refine ⟨⟨hid, hnew⟩, harrival, hne, hturns, hvalid, hn, fun w hw hmem => ?_⟩
      exact (List.mem_cons.1 hmem).elim (hdistinct w hw) (hids w hw)

/-- **What `validate` accepts.** -/
theorem validate_eq_ok {workload : Workload T} : validate workload = .ok () ↔ workload.Valid := by
  simp only [validate, Except.bind_eq_ok_iff, number_positive_eq_ok, Except.failIf_eq_ok,
    exists_const, validateWorkflows_eq_ok, not_or, Classical.not_not, not_lt, ne_eq]
  constructor
  · rintro ⟨hschema, hcache, hbudget, hchunk, hprefill, hhorizon, hne, hvalid, hn, -⟩
    exact ⟨hschema, hcache, hbudget, hchunk, hprefill, hhorizon, hne, hvalid, hn⟩
  · rintro ⟨hschema, hcache, hbudget, hchunk, hprefill, hhorizon, hne, hvalid, hn⟩
    exact ⟨hschema, hcache, hbudget, hchunk, hprefill, hhorizon, hne, hvalid, hn,
      fun _ _ => List.not_mem_nil⟩

end ReedCode.Headroom
