import Mathlib.Data.Finset.Image
import ReedCode.KvReport.Ancestry
import ReedCode.Lib.CommonPrefix

/-!
# Ids of blocks are paths of tokens

* `chunks_flatten`, `exists_blocks` — a prompt as its full blocks.
* `Use`, `after` — the identities that calls lead to; `after_valid`.
* `mem_blocks`, `card_common` — the ids of a prompt, and those that two prompts share.
* `classify_spec` — the counts of a ledger.
* `blockAncestry_exact` — **blocks are resolved exactly, and counted once.**
-/

set_option autoImplicit false

namespace ReedCode.KvReport

open Interning Lists

universe u

variable {κ : Type u} [DecidableEq κ]

/-! ## Full blocks -/

theorem rangeLength_eq {length n : Nat} (hn : 0 < n) :
    rangeLength (length + 1 - n) n = length / n := by
  unfold rangeLength
  by_cases h : length < n
  · rw [Nat.div_eq_of_lt h, Nat.div_eq_of_lt (by omega)]
  · congr 1
    omega

theorem length_chunks {n : Nat} (hn : 0 < n) (tokens : List Int) :
    (chunks n tokens).length = tokens.length / n := by
  rw [chunks, List.length_map, List.length_range, rangeLength_eq hn]

theorem chunks_append {n : Nat} (hn : 0 < n) {block : List Int} (hblock : block.length = n)
    (rest : List Int) : chunks n (block ++ rest) = block :: chunks n rest := by
  have hlength : (block ++ rest).length / n = rest.length / n + 1 := by
    rw [List.length_append, hblock, Nat.add_comm, Nat.add_div_right _ hn]
  rw [chunks, chunks, rangeLength_eq hn, rangeLength_eq hn, hlength, List.range_succ_eq_map,
    List.map_cons, List.map_map]
  congr 1
  · rw [Nat.zero_mul, List.drop_zero, List.take_append_of_le_length (by omega),
      List.take_of_length_le (by omega)]
  · refine List.map_congr_left fun i _ => ?_
    have hdrop : (i + 1) * n = block.length + i * n := by rw [hblock, Nat.succ_mul, Nat.add_comm]
    rw [Function.comp_apply, Nat.succ_eq_add_one, hdrop, ← List.drop_drop, List.drop_left]

/-- Full blocks are found again. -/
theorem chunks_flatten {n : Nat} (hn : 0 < n) : ∀ {bs : List (List Int)},
    (∀ b ∈ bs, b.length = n) → chunks n bs.flatten = bs
  | [], _ => by
    rw [List.flatten_nil, ← List.length_eq_zero_iff, length_chunks hn, List.length_nil,
      Nat.zero_div]
  | b :: bs, h => by
    obtain ⟨hb, hrest⟩ := List.forall_mem_cons.1 h
    rw [List.flatten_cons, chunks_append hn hb, chunks_flatten hn hrest]

/-- The first full blocks of a prompt. -/
theorem exists_blocks {n : Nat} (hn : 0 < n) : ∀ {k : Nat} {tokens : List Int},
    k * n ≤ tokens.length → ∃ bs : List (List Int), bs.length = k ∧ (∀ b ∈ bs, b.length = n) ∧
      tokens.take (k * n) = bs.flatten ∧ (chunks n tokens).take k = bs
  | 0, tokens, _ => ⟨[], rfl, nofun, by simp, rfl⟩
  | k + 1, tokens, h => by
    have hsucc : (k + 1) * n = n + k * n := by rw [Nat.succ_mul, Nat.add_comm]
    have hblock : (tokens.take n).length = n := by
      rw [List.length_take]
      omega
    have hrest : k * n ≤ (tokens.drop n).length := by
      rw [List.length_drop]
      omega
    obtain ⟨bs, hlength, hall, htake, hchunks⟩ := exists_blocks hn hrest
    refine ⟨tokens.take n :: bs, congrArg (· + 1) hlength, List.forall_mem_cons.2 ⟨hblock, hall⟩,
      ?_, ?_⟩
    · rw [hsucc, List.take_add, htake, List.flatten_cons]
    · conv_lhs => rw [← List.take_append_drop n tokens, chunks_append hn hblock]
      rw [List.take_succ_cons, hchunks]

/-- Two prompts start with the same full blocks exactly if they have them in common. -/
theorem take_chunks_eq_iff {n : Nat} (hn : 0 < n) {x y : List Int} {k : Nat}
    (hx : k * n ≤ x.length) (hy : k * n ≤ y.length) :
    (chunks n x).take k = (chunks n y).take k ↔ k * n ≤ commonLength x y := by
  obtain ⟨bs, -, hall, htake, hchunks⟩ := exists_blocks hn hx
  obtain ⟨bs', -, hall', htake', hchunks'⟩ := exists_blocks hn hy
  have hshared : Shared x y (k * n) ↔ bs.flatten = bs'.flatten := by
    rw [Shared, htake, htake']
    simp [hx, hy]
  rw [← shared_iff, hshared, hchunks, hchunks']
  refine ⟨fun h => congrArg _ h, fun h => ?_⟩
  rw [← chunks_flatten hn hall, h, chunks_flatten hn hall']

/-! ## Calls -/

/-- What is done with an identity. -/
inductive Use (κ : Type u) [DecidableEq κ] where
  | blocks (tokens : List Int)
  | resolve (history : FinMap κ (Record κ))

def BlockIdentity.use (identity : BlockIdentity) : Use κ → BlockIdentity
  | .blocks tokens => (identity.blocks tokens).2
  | .resolve history => (resolveBlocks history identity).identity

/-- An identity after some calls. -/
def after (blockSize : Nat) (uses : List (Use κ)) : BlockIdentity :=
  uses.foldl BlockIdentity.use ⟨blockSize, .empty⟩

theorem use_spec {identity : BlockIdentity} (hvalid : Valid identity.nodes) (use : Use κ) :
    Valid (identity.use use).nodes ∧ Extends identity.nodes (identity.use use).nodes ∧
      (identity.use use).blockSize = identity.blockSize := by
  cases use with
  | blocks tokens =>
    obtain ⟨hv, hext, -, -⟩ := internPath_spec (chunks identity.blockSize tokens) hvalid
      (Nat.zero_le _)
    exact ⟨hv, hext, rfl⟩
  | resolve history =>
    have hdone := @resolveBlocks_spec κ _ history identity hvalid
    exact ⟨hdone.sound.valid, hdone.grown, hdone.blockSize⟩

theorem uses_spec : ∀ {uses : List (Use κ)} {identity : BlockIdentity}, Valid identity.nodes →
    Valid (uses.foldl BlockIdentity.use identity).nodes ∧
      Extends identity.nodes (uses.foldl BlockIdentity.use identity).nodes ∧
      (uses.foldl BlockIdentity.use identity).blockSize = identity.blockSize
  | [], _, h => ⟨h, Extends.refl _, rfl⟩
  | use :: uses, identity, h => by
    obtain ⟨hv, hext, hsize⟩ := use_spec h use
    obtain ⟨hv', hext', hsize'⟩ := @uses_spec uses _ hv
    exact ⟨hv', hext.trans hext', hsize'.trans hsize⟩

/-! ## The ids of a prompt -/

variable {identity : BlockIdentity}

/-- The ids of a prompt are those of its full blocks from the start. -/
theorem mem_blocks (hvalid : Valid identity.nodes) {tokens : List Int} {id : Nat} :
    id ∈ (identity.blocks tokens).1 ↔
      ∃ k < (chunks identity.blockSize tokens).length,
        idOf (identity.blocks tokens).2.nodes ((chunks identity.blockSize tokens).take (k + 1)) =
          some id := by
  obtain ⟨-, -, hlength, hids⟩ := internPath_spec (chunks identity.blockSize tokens) hvalid
    (Nat.zero_le _)
  change id ∈ (internPath identity.nodes 0 (chunks identity.blockSize tokens)).1.toFinset ↔ _
  rw [List.mem_toFinset, List.mem_iff_getElem?]
  constructor
  · rintro ⟨k, hk⟩
    have hlt : k < (chunks identity.blockSize tokens).length := by
      rw [← hlength]
      exact (List.getElem?_eq_some_iff.1 hk).1
    exact ⟨k, hlt, (hids k hlt).symm.trans hk⟩
  · rintro ⟨k, hlt, hk⟩
    exact ⟨k, (hids k hlt).trans hk⟩

theorem exists_idOf_blocks (hvalid : Valid identity.nodes) {tokens : List Int} {k : Nat}
    (hk : k < (chunks identity.blockSize tokens).length) : ∃ id,
      idOf (identity.blocks tokens).2.nodes ((chunks identity.blockSize tokens).take (k + 1)) =
        some id := by
  obtain ⟨-, -, hlength, hids⟩ := internPath_spec (chunks identity.blockSize tokens) hvalid
    (Nat.zero_le _)
  rw [← hlength] at hk
  exact ⟨_, (hids k (hlength ▸ hk)).symm.trans (List.getElem?_eq_getElem hk)⟩

section Common

variable {first later : BlockIdentity} {n : Nat} {x y : List Int}

theorem lt_length_chunks (hn : 0 < n) (tokens : List Int) (k : Nat) :
    k < (chunks n tokens).length ↔ (k + 1) * n ≤ tokens.length := by
  rw [length_chunks hn, ← Nat.le_div_iff_mul_le hn, Nat.succ_le_iff]

/-- The ids that two prompts share are those of the blocks they start with. -/
theorem mem_common (hn : 0 < n) (hfirst : first.blockSize = n) (hlater : later.blockSize = n)
    (hv : Valid first.nodes) (hv' : Valid later.nodes)
    (hext : Extends (first.blocks x).2.nodes later.nodes) {id : Nat} :
    id ∈ (first.blocks x).1 ∩ (later.blocks y).1 ↔ ∃ k < commonLength x y / n,
      idOf (later.blocks y).2.nodes ((chunks n x).take (k + 1)) = some id := by
  obtain ⟨hv₃, hext₃, -⟩ := use_spec hv' (.blocks y : Use Nat)
  have hext' : Extends (first.blocks x).2.nodes (later.blocks y).2.nodes := hext.trans hext₃
  subst hfirst
  rw [Finset.mem_inter, mem_blocks hv, mem_blocks hv', hlater]
  constructor
  · rintro ⟨⟨k, hk, hid⟩, j, hj, hid'⟩
    have hpath := idOf_injective hv₃ (hext'.follow hid) hid'
    have hkj : k = j := by
      have hlength := congrArg List.length hpath
      rw [List.length_take_of_le hk, List.length_take_of_le hj] at hlength
      exact Nat.succ.inj hlength
    subst hkj
    refine ⟨k, ?_, hext'.follow hid⟩
    rw [take_chunks_eq_iff hn ((lt_length_chunks hn x k).1 hk) ((lt_length_chunks hn y k).1 hj)]
      at hpath
    exact (Nat.le_div_iff_mul_le hn).2 hpath
  · rintro ⟨k, hk, hid⟩
    have hcommon := (Nat.le_div_iff_mul_le hn).1 hk
    have hx := hcommon.trans (commonLength_le_left x y)
    have hy := hcommon.trans (commonLength_le_right x y)
    have hkx := (lt_length_chunks hn x k).2 hx
    refine ⟨⟨k, hkx, ?_⟩, k, (lt_length_chunks hn y k).2 hy, ?_⟩
    · obtain ⟨id', hid'⟩ := exists_idOf_blocks hv hkx
      have hsame : some id' = some id := (hext'.follow hid').symm.trans hid
      exact hid'.trans hsame
    · rw [← (take_chunks_eq_iff hn hx hy).2 hcommon]
      exact hid

/-- As many ids are shared as there are full blocks in the common start. -/
theorem card_common (hn : 0 < n) (hfirst : first.blockSize = n) (hlater : later.blockSize = n)
    (hv : Valid first.nodes) (hv' : Valid later.nodes)
    (hext : Extends (first.blocks x).2.nodes later.nodes) :
    ((first.blocks x).1 ∩ (later.blocks y).1).card = commonLength x y / n := by
  obtain ⟨hv₃, hext₃, -⟩ := use_spec hv' (.blocks y : Use Nat)
  have hext' : Extends (first.blocks x).2.nodes (later.blocks y).2.nodes := hext.trans hext₃
  have hidOf : ∀ k < commonLength x y / n, ∃ id,
      idOf (later.blocks y).2.nodes ((chunks n x).take (k + 1)) = some id := by
    intro k hk
    have hx := ((Nat.le_div_iff_mul_le hn).1 hk).trans (commonLength_le_left x y)
    subst hfirst
    obtain ⟨id, hid⟩ := exists_idOf_blocks hv ((lt_length_chunks hn x k).2 hx)
    exact ⟨id, hext'.follow hid⟩
  have himage : (first.blocks x).1 ∩ (later.blocks y).1 =
      (Finset.range (commonLength x y / n)).image fun k =>
        (idOf (later.blocks y).2.nodes ((chunks n x).take (k + 1))).getD 0 := by
    ext id
    rw [mem_common hn hfirst hlater hv hv' hext, Finset.mem_image]
    constructor
    · rintro ⟨k, hk, hid⟩
      exact ⟨k, Finset.mem_range.2 hk, by rw [hid, Option.getD_some]⟩
    · rintro ⟨k, hk, rfl⟩
      obtain ⟨id, hid⟩ := hidOf k (Finset.mem_range.1 hk)
      exact ⟨k, Finset.mem_range.1 hk, by rw [hid, Option.getD_some]⟩
  rw [himage, Finset.card_image_of_injOn, Finset.card_range]
  intro k hk j hj he
  have hlt : ∀ i, i ∈ Finset.range (commonLength x y / n) → i + 1 ≤ (chunks n x).length := by
    intro i hi
    have hcommon := (Nat.le_div_iff_mul_le hn).1 (Finset.mem_range.1 hi)
    exact (lt_length_chunks hn x i).2 (hcommon.trans (commonLength_le_left x y))
  obtain ⟨i, hi⟩ := hidOf k (Finset.mem_range.1 hk)
  obtain ⟨i', hi'⟩ := hidOf j (Finset.mem_range.1 hj)
  dsimp only at he
  rw [hi, hi', Option.getD_some, Option.getD_some] at he
  subst he
  have hlength := congrArg List.length (idOf_injective hv₃ hi hi')
  rw [List.length_take_of_le (hlt k hk), List.length_take_of_le (hlt j hj)] at hlength
  exact Nat.succ.inj hlength

end Common

/-! ## Paths -/

theorem validToken_eq_some {v : Value} {n : Int} :
    validToken v = some n ↔ v = .int n ∧ 0 ≤ n ∧ n < 2 ^ 32 := by
  cases v with
  | int m =>
    rw [validToken, Value.int.injEq]
    constructor
    · intro h
      split at h
      · cases h
        omega
      · cases h
    · rintro ⟨rfl, h⟩
      rw [if_pos (by omega)]
  | _ => simp [validToken]

theorem mapM_validToken : ∀ {values : List Value} {tokens : List Int},
    values.mapM validToken = some tokens ↔
      values = tokens.map .int ∧ ∀ n ∈ tokens, 0 ≤ n ∧ n < 2 ^ 32
  | [], tokens => by
    cases tokens <;> simp
  | v :: values, tokens => by
    rw [List.mapM_cons, Option.bind_eq_bind, Option.bind_eq_some_iff]
    constructor
    · rintro ⟨n, hn, h⟩
      obtain ⟨tokens, htokens, h⟩ := Option.bind_eq_some_iff.1 h
      cases h
      obtain ⟨rfl, hrange⟩ := validToken_eq_some.1 hn
      obtain ⟨rfl, hall⟩ := mapM_validToken.1 htokens
      exact ⟨rfl, List.forall_mem_cons.2 ⟨hrange, hall⟩⟩
    · rintro ⟨h, hall⟩
      cases tokens with
      | nil => cases h
      | cons n tokens =>
        obtain ⟨rfl, rfl⟩ := List.cons.inj h
        obtain ⟨hrange, hall⟩ := List.forall_mem_cons.1 hall
        refine ⟨n, validToken_eq_some.2 ⟨rfl, hrange⟩, ?_⟩
        rw [mapM_validToken.2 ⟨rfl, hall⟩]
        rfl

/-- The tokens of a block: 16 unsigned numbers of 32 bits. -/
theorem blockTokens_eq_some {tokenIds : List Value} {tokens : List Int} :
    blockTokens tokenIds = some tokens ↔ tokenIds = tokens.map .int ∧ tokens.length = 16 ∧
      ∀ n ∈ tokens, 0 ≤ n ∧ n < 2 ^ 32 := by
  unfold blockTokens
  split
  · rename_i hlength
    rw [mapM_validToken]
    constructor
    · rintro ⟨rfl, hall⟩
      rw [List.length_map] at hlength
      exact ⟨rfl, hlength, hall⟩
    · rintro ⟨rfl, -, hall⟩
      exact ⟨rfl, hall⟩
  · rename_i hlength
    refine iff_of_false (by simp) ?_
    rintro ⟨rfl, h, -⟩
    exact hlength (by rw [List.length_map, h])

theorem PathOf.length_eq {history : FinMap κ (Record κ)} : ∀ {cur : Option κ}
    {path : List (List Int)}, PathOf history cur path → ∀ b ∈ path, b.length = 16
  | _, _, .root, b, hb => by cases hb
  | _, _, .block _ htokens hparent, b, hb => by
    rcases List.mem_append.1 hb with hb | hb
    · exact hparent.length_eq b hb
    · cases List.mem_singleton.1 hb
      exact (blockTokens_eq_some.1 htokens).2.1

/-! ## Counts -/

/-- The category of a key. -/
def categoryAt (resolved : FinMap κ Nat) (real warm : Finset Nat) (key : κ) : Category :=
  match resolved.get? key with
  | none => .unresolvedAncestry
  | some node => categoryOf real warm node

theorem tally_counts (resolved : FinMap κ Nat) (real warm current : Finset Nat) (c : Category) :
    ∀ (keys : List κ) (tally : Tally),
      (keys.foldl (Tally.block resolved real warm current) tally).counts c =
        tally.counts c + keys.countP fun k => categoryAt resolved real warm k = c
  | [], _ => rfl
  | key :: keys, tally => by
    have hone : (Tally.block resolved real warm current tally key).counts c =
        tally.counts c + if c = categoryAt resolved real warm key then 1 else 0 := by
      unfold Tally.block categoryAt
      cases resolved.get? key <;> rfl
    rw [List.foldl_cons, tally_counts resolved real warm current c keys, hone, List.countP_cons]
    simp only [eq_comm (a := c), decide_eq_true_eq]
    omega

/-- Every key is counted in one category. -/
theorem sum_countP {α : Type u} (category : α → Category) : ∀ keys : List α,
    (Category.all.map fun c => keys.countP fun k => category k = c).sum = keys.length
  | [] => rfl
  | key :: keys => by
    have ih := sum_countP category keys
    simp only [Category.all, List.map_cons, List.map_nil, List.sum_cons, List.sum_nil,
      List.countP_cons, List.length_cons, decide_eq_true_eq] at ih ⊢
    cases category key <;> simp <;> omega

/-- **The counts of a ledger** are those of its keys, by category; the check never fails. -/
theorem classify_spec (ledger : Ledger κ) (identity : BlockIdentity) (real warm current : Finset Nat)
    (totalTokens : Nat) : ∃ out identity',
      classify ledger identity real warm current totalTokens = .ok (out, identity') ∧
      (Category.all.map out.counts).sum = ledger.blocks.size ∧
      ∀ c, out.counts c = ledger.blocks.keys.countP fun k =>
        categoryAt (resolveBlocks ledger.history identity).resolved real warm k = c := by
  have hcounts : ∀ c, (ledger.blocks.keys.foldl (Tally.block
      (resolveBlocks ledger.history identity).resolved real warm current) ⟨fun _ => 0, 0, ∅⟩).counts c =
      ledger.blocks.keys.countP fun k =>
        categoryAt (resolveBlocks ledger.history identity).resolved real warm k = c := by
    intro c
    rw [tally_counts]
    exact Nat.zero_add _
  have hsum : (Category.all.map (ledger.blocks.keys.foldl (Tally.block
      (resolveBlocks ledger.history identity).resolved real warm current)
        ⟨fun _ => 0, 0, ∅⟩).counts).sum = ledger.blocks.size := by
    rw [List.map_congr_left fun c _ => hcounts c, sum_countP, FinMap.length_keys]
  refine ⟨_, _, if_neg (Classical.not_not.2 hsum), hsum, hcounts⟩

/-! ## The whole -/

section Whole

variable {identity : BlockIdentity} {history : FinMap κ (Record κ)}

/-- The last id of a path is the one that its tokens get as a prompt. -/
theorem getLast?_blockIds (hv : Valid identity.nodes) (hsize : identity.blockSize = 16)
    {key : κ} {path : List (List Int)} (hpath : PathOf history (some key) path) {id : Nat}
    (hid : idOf identity.nodes path = some id) :
    (identity.blockIds path.flatten).1.getLast? = some id := by
  have hchunks : chunks identity.blockSize path.flatten = path := by
    rw [hsize]
    exact chunks_flatten (by decide) hpath.length_eq
  have hne : path ≠ [] := by
    cases hpath with
    | block => simp
  obtain ⟨-, hext, hlength, hids⟩ := internPath_spec (chunks identity.blockSize path.flatten) hv
    (Nat.zero_le _)
  change (internPath identity.nodes 0 (chunks identity.blockSize path.flatten)).1.getLast? = _
  rw [hchunks] at hlength hids hext ⊢
  have hpos : path.length - 1 < path.length := by
    have := List.length_pos_iff.2 hne
    omega
  rw [List.getLast?_eq_getElem?, hlength, hids _ hpos, List.take_of_length_le (by omega)]
  exact hext.follow hid

theorem after_spec (n : Nat) (uses : List (Use κ)) :
    Valid (after n uses).nodes ∧ (after n uses).blockSize = n := by
  obtain ⟨hv, -, hsize⟩ := @uses_spec κ _ uses ⟨n, .empty⟩ valid_empty
  exact ⟨hv, hsize⟩

/-- Keys that are resolved have paths, and the others are broken. -/
theorem resolved_iff (hv : Valid identity.nodes) (key : κ) :
    (key ∈ (resolveBlocks history identity).resolved.keys ↔ ∃ path, PathOf history (some key) path) ∧
    (key ∈ (resolveBlocks history identity).unresolved.keys ↔
      key ∈ history.keys ∧ Broken history key) := by
  have hdone := @resolveBlocks_spec κ _ history identity hv
  have hpath : key ∈ (resolveBlocks history identity).resolved.keys →
      ∃ path, PathOf history (some key) path := by
    intro hkey
    obtain ⟨id, hid⟩ := Option.isSome_iff_exists.1 (FinMap.mem_keys.1 hkey)
    obtain ⟨path, hof, -⟩ := hdone.sound.path hid
    exact ⟨path, hof⟩
  refine ⟨⟨hpath, ?_⟩, hdone.broken key, ?_⟩
  · rintro ⟨path, hof⟩
    have hin : key ∈ history.keys := by
      cases hof with
      | block hrow => exact FinMap.mem_keys_of_get? hrow
    rcases hdone.all key hin with hkey | hkey
    · exact hkey
    · exact absurd (hdone.broken key hkey).2 hof.not_broken
  · rintro ⟨hin, hbroken⟩
    rcases hdone.all key hin with hkey | hkey
    · obtain ⟨path, hof⟩ := hpath hkey
      exact absurd hbroken hof.not_broken
    · exact hkey

/-- Two ids are equal exactly if the paths are. -/
theorem ids_eq_iff (hv : Valid identity.nodes) {k k' : κ} {id id' : Nat}
    (hid : (resolveBlocks history identity).resolved.get? k = some id)
    (hid' : (resolveBlocks history identity).resolved.get? k' = some id') {p p' : List (List Int)}
    (hp : PathOf history (some k) p) (hp' : PathOf history (some k') p') : id = id' ↔ p = p' := by
  have hdone := @resolveBlocks_spec κ _ history identity hv
  obtain ⟨q, hq, hidq⟩ := hdone.sound.path hid
  obtain ⟨q', hq', hidq'⟩ := hdone.sound.path hid'
  obtain rfl := hp.unique hq
  obtain rfl := hp'.unique hq'
  constructor
  · rintro rfl
    exact idOf_injective hdone.sound.valid hidq hidq'
  · rintro rfl
    exact Option.some.inj (hidq.symm.trans hidq')

/-- The paths are those of any history with the same records. -/
theorem PathOf.congr {history' : FinMap κ (Record κ)} (h : ∀ k, history'.get? k = history.get? k) :
    ∀ {cur : Option κ} {path : List (List Int)}, PathOf history cur path → PathOf history' cur path
  | _, _, .root => .root
  | _, _, .block hrow htokens hparent => .block ((h _).trans hrow) htokens (hparent.congr h)

end Whole

/-- **Blocks are resolved exactly, and counted once.**  Whatever prompts and histories the identity
has seen before: every key is in one of the two maps, and is unresolved exactly if its ancestry is
broken; equal ids are equal paths of tokens, and are the ids of these tokens as a prompt; the order
of the history does not matter; two prompts share the ids of their common full blocks; and the
counts of a ledger add up to its blocks. -/
theorem blockAncestry_exact (uses : List (Use κ)) (history : FinMap κ (Record κ)) :
    let r := resolveBlocks history (after 16 uses)
    (∀ k, (k ∈ r.resolved.keys ∨ k ∈ r.unresolved.keys ↔ k ∈ history.keys) ∧
      ¬ (k ∈ r.resolved.keys ∧ k ∈ r.unresolved.keys)) ∧
    (∀ k ∈ history.keys, k ∈ r.unresolved.keys ↔ Broken history k) ∧
    (∀ k id, r.resolved.get? k = some id → ∃ path, PathOf history (some k) path ∧
      ∀ later : List (Use κ),
        ((later.foldl BlockIdentity.use r.identity).blockIds path.flatten).1.getLast? = some id) ∧
    (∀ k k' id id' p p', r.resolved.get? k = some id → r.resolved.get? k' = some id' →
      PathOf history (some k) p → PathOf history (some k') p' → (id = id' ↔ p = p')) ∧
    (∀ (uses' : List (Use κ)) (history' : FinMap κ (Record κ)),
      (∀ k, history'.get? k = history.get? k) →
      let r' := resolveBlocks history' (after 16 uses')
      (∀ k, k ∈ r'.resolved.keys ↔ k ∈ r.resolved.keys) ∧
      ∀ k k' id id' i i', r.resolved.get? k = some id → r.resolved.get? k' = some id' →
        r'.resolved.get? k = some i → r'.resolved.get? k' = some i' → (i = i' ↔ id = id')) ∧
    (∀ (n : Nat) (before between : List (Use κ)) (x y : List Int), 0 < n →
      (((after n before).blocks x).1 ∩
        ((between.foldl BlockIdentity.use ((after n before).blocks x).2).blocks y).1).card =
          commonLength x y / n) ∧
    ∀ (ledger : Ledger κ) (real warm current : Finset Nat) (totalTokens : Nat),
      ∃ out identity', classify ledger (after 16 uses) real warm current totalTokens =
          .ok (out, identity') ∧
        (Category.all.map out.counts).sum = ledger.blocks.size ∧
        ∀ c, out.counts c = ledger.blocks.keys.countP fun k =>
          categoryAt (resolveBlocks ledger.history (after 16 uses)).resolved real warm k = c := by
  obtain ⟨hv, hsize⟩ := after_spec 16 uses
  have hdone := @resolveBlocks_spec κ _ history _ hv
  refine ⟨fun k => ⟨?_, ?_⟩, fun k hk => ?_, fun k id hid => ?_, ?_, ?_, ?_,
    fun ledger => classify_spec ledger _⟩
  · obtain ⟨hresolved, hunresolved⟩ := @resolved_iff κ _ _ history hv k
    constructor
    · rintro (hk | hk)
      · obtain ⟨path, hof⟩ := hresolved.1 hk
        cases hof with
        | block hrow => exact FinMap.mem_keys_of_get? hrow
      · exact (hunresolved.1 hk).1
    · exact hdone.all k
  · rintro ⟨hr, hu⟩
    obtain ⟨path, hof⟩ := (@resolved_iff κ _ _ history hv k).1.1 hr
    exact hof.not_broken (hdone.broken k hu).2
  · rw [(resolved_iff hv k).2, and_iff_right hk]
  · obtain ⟨path, hof, hpath⟩ := hdone.sound.path hid
    refine ⟨path, hof, fun later => ?_⟩
    obtain ⟨hlater, hext, hsame⟩ := @uses_spec κ _ later _ hdone.sound.valid
    exact getLast?_blockIds hlater (hsame.trans (hdone.blockSize.trans hsize)) hof
      (hext.follow hpath)
  · exact fun k k' id id' p p' hid hid' hp hp' => ids_eq_iff hv hid hid' hp hp'
  · intro uses' history' hsame
    obtain ⟨hv', -⟩ := after_spec 16 uses'
    refine ⟨fun k => ?_, fun k k' id id' i i' hid hid' hi hi' => ?_⟩
    · rw [(resolved_iff hv' k).1, (resolved_iff hv k).1]
      constructor
      · rintro ⟨p, hp⟩
        exact ⟨p, hp.congr fun k => (hsame k).symm⟩
      · rintro ⟨p, hp⟩
        exact ⟨p, hp.congr hsame⟩
    · obtain ⟨p, hp, -⟩ := hdone.sound.path hid
      obtain ⟨p', hp', -⟩ := hdone.sound.path hid'
      rw [ids_eq_iff hv hid hid' hp hp', ids_eq_iff hv' hi hi' (hp.congr hsame) (hp'.congr hsame)]
  · intro n before between x y hn
    obtain ⟨hvn, hsizen⟩ := after_spec n before
    obtain ⟨hv₁, -, hsize₁⟩ := use_spec hvn (.blocks x : Use κ)
    obtain ⟨hv₂, hext₂, hsize₂⟩ := @uses_spec κ _ between _ hv₁
    exact card_common hn hsizen (hsize₂.trans (hsize₁.trans hsizen)) hvn hv₂ hext₂

/-- A block at the root, and one that is its own parent. -/
def twoBlocks : FinMap String (Record String) :=
  .ofList [("a", ⟨none, List.replicate 16 (.int 1)⟩), ("b", ⟨some "b", List.replicate 16 (.int 1)⟩)]

theorem blockAncestry_exact_two :
    (∃ id path, (resolveBlocks twoBlocks (after 16 ([] : List (Use String)))).resolved.get? "a" =
        some id ∧ PathOf twoBlocks (some "a") path ∧
      ((resolveBlocks twoBlocks (after 16 ([] : List (Use String)))).identity.blockIds
        path.flatten).1.getLast? = some id) ∧
    ("b" ∈ (resolveBlocks twoBlocks (after 16 ([] : List (Use String)))).unresolved.keys ↔
      Broken twoBlocks "b") ∧
    (((after 16 ([] : List (Use String))).blocks [1]).1 ∩
      (((after 16 ([] : List (Use String))).blocks [1]).2.blocks [2]).1).card =
        commonLength [1] [2] / 16 := by
  have h := blockAncestry_exact ([] : List (Use String)) twoBlocks
  have hpath : PathOf twoBlocks (some "a") ([] ++ [List.replicate 16 1]) :=
    @PathOf.block _ _ _ _ ⟨none, List.replicate 16 (.int 1)⟩ _ _ (by decide) (by decide) .root
  have hkey := ((resolved_iff (after_spec 16 ([] : List (Use String))).1 "a").1).2 ⟨_, hpath⟩
  obtain ⟨id, hid⟩ := Option.isSome_iff_exists.1 (FinMap.mem_keys.1 hkey)
  obtain ⟨path, hof, hlater⟩ := h.2.2.1 "a" id hid
  exact ⟨⟨id, path, hid, hof, hlater []⟩, h.2.1 "b" (by decide),
    h.2.2.2.2.2.1 16 [] [] [1] [2] (by decide)⟩

end ReedCode.KvReport
