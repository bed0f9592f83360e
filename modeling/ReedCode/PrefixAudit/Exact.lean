import ReedCode.PrefixAudit.ServerPrompt

/-!
# Verified prompts

* `flatten_blocks`, `packTokens_inj`, `packPair_inj` — blocks and packed bytes lose nothing.
* `Recorded` — what a record has to hold for a prompt.
* `validate_verified` — **a prompt is verified only by a record of its own length and hashes**.
* `server_prompt_exact` — and a record of another prompt shows the first block that differs.
-/

set_option autoImplicit false

namespace ReedCode.PrefixAudit

open HashChain

/-! ## Blocks -/

theorem flatten_range (size : Nat) (tokens : List Int) : ∀ n : Nat,
    ((List.range n).map fun i => (tokens.drop (i * size)).take size).flatten =
      tokens.take (n * size)
  | 0 => by simp
  | n + 1 => by
    rw [List.range_succ, List.map_append, List.flatten_append, flatten_range size tokens n]
    rw [List.map_singleton, List.flatten_singleton, Nat.succ_mul, List.take_add]

/-- **The blocks of a prompt are the prompt.** -/
theorem flatten_blocks {size : Nat} (hsize : 1 ≤ size) (tokens : List Int) :
    (blocks size tokens).flatten = tokens := by
  rw [blocks, flatten_range]
  refine List.take_of_length_le ?_
  have hdiv := Nat.div_add_mod (tokens.length + size - 1) size
  have hmod := Nat.mod_lt (tokens.length + size - 1) hsize
  rw [Nat.mul_comm] at hdiv
  omega

theorem length_blocks (size : Nat) (tokens : List Int) :
    (blocks size tokens).length = (tokens.length + size - 1) / size := by
  rw [blocks, List.length_map, List.length_range]

theorem mem_of_mem_blocks {size : Nat} {tokens block : List Int} (h : block ∈ blocks size tokens)
    {token : Int} (htoken : token ∈ block) : token ∈ tokens := by
  obtain ⟨i, -, rfl⟩ := List.mem_map.1 h
  exact List.mem_of_mem_drop (List.mem_of_mem_take htoken)

/-! ## Packed bytes -/

/-- Tokens that `struct.pack` takes. -/
def Packable (block : List Int) : Prop := ∀ token ∈ block, 0 ≤ token ∧ token ≤ 0xFFFFFFFF

theorem encode_inj {width m n : Nat} (hm : m < 256 ^ width) (hn : n < 256 ^ width)
    (h : BigEndian.encode width m = BigEndian.encode width n) : m = n := by
  have hdecode := congrArg BigEndian.decode h
  rwa [BigEndian.decode_encode hm, BigEndian.decode_encode hn] at hdecode

theorem packTokens_inj : ∀ a b : List Int, Packable a → Packable b → packTokens a = packTokens b →
    a = b
  | [], [], _, _, _ => rfl
  | [], y :: b, _, _, h => by
    have hlen := congrArg List.length h
    simp only [packTokens, List.flatMap_nil, List.length_nil, List.flatMap_cons, List.length_append,
      List.length_reverse, BigEndian.length_encode] at hlen
    omega
  | x :: a, [], _, _, h => by
    have hlen := congrArg List.length h
    simp only [packTokens, List.flatMap_nil, List.length_nil, List.flatMap_cons, List.length_append,
      List.length_reverse, BigEndian.length_encode] at hlen
    omega
  | x :: a, y :: b, ha, hb, h => by
    rw [Packable, List.forall_mem_cons] at ha hb
    rw [packTokens, packTokens, List.flatMap_cons, List.flatMap_cons] at h
    obtain ⟨hhead, htail⟩ := List.append_inj h (by simp)
    have hxy : x.toNat = y.toNat :=
      encode_inj (by omega) (by omega) (List.reverse_injective hhead)
    have hx : x = y := by omega
    rw [hx, packTokens_inj a b ha.2 hb.2 htail]

theorem packPair_inj (p a b : UInt64) (h : packPair p a = packPair p b) : a = b := by
  have htail := List.reverse_injective (List.append_cancel_left h)
  exact UInt64.toNat_inj.1 (encode_inj a.toNat_lt b.toNat_lt htail)

/-! ## The first difference -/

theorem firstMismatch_eq : ∀ actual expected : List Int,
    firstMismatch actual expected = Lists.commonLength actual expected
  | [], _ => by simp [firstMismatch, Lists.commonLength]
  | _ :: _, [] => by simp [firstMismatch, Lists.commonLength]
  | a :: actual, b :: expected => by
    have ih := firstMismatch_eq actual expected
    rw [Lists.commonLength]
    rw [firstMismatch] at ih ⊢
    rw [List.zip_cons_cons, List.findIdx?_cons]
    by_cases hab : a = b
    · rw [if_pos hab, ← ih]
      simp only [hab, ne_eq, not_true_eq_false, decide_false, Bool.false_eq_true, if_false]
      cases (actual.zip expected).findIdx? fun p => decide (p.1 ≠ p.2) with
      | none =>
        simp only [Option.map_none, Option.getD_none, List.length_cons]
        omega
      | some i => rfl
    · rw [if_neg hab]
      simp [hab]

/-- Where the common prefix of two lists ends they differ, unless they are the same. -/
theorem getElem?_commonLength {α : Type} [DecidableEq α] : ∀ {xs ys : List α}, xs ≠ ys →
    xs[Lists.commonLength xs ys]? ≠ ys[Lists.commonLength xs ys]? ∧
      ∀ j < Lists.commonLength xs ys, xs[j]? = ys[j]?
  | [], [], h => absurd rfl h
  | [], _ :: _, _ => by simp [Lists.commonLength]
  | _ :: _, [], _ => by simp [Lists.commonLength]
  | a :: xs, b :: ys, h => by
    rw [Lists.commonLength]
    by_cases hab : a = b
    · subst hab
      rw [if_pos rfl]
      have hrest : xs ≠ ys := fun hrest => h (hrest ▸ rfl)
      obtain ⟨hne, heq⟩ := getElem?_commonLength hrest
      refine ⟨hne, fun j hj => ?_⟩
      cases j with
      | zero => rfl
      | succ j => exact heq j (by omega)
    · rw [if_neg hab]
      refine ⟨?_, fun j hj => absurd hj (Nat.not_lt_zero j)⟩
      simpa using hab

/-! ## Records -/

/-- The metadata of a record. -/
def replayOf (record : Value) : Value := (requestOf (eventOf record)).get "replay"

/-- A record of a `request_end` event that can be compared with a prompt. -/
structure RequestEnd (record : Value) : Prop where
  object : record.isObject = true
  event : (eventOf record).isObject = true
  kind : isRequestEnd (eventOf record) = .ok true
  request : (requestOf (eventOf record)).isObject = true
  replay : (replayOf record).isObject = true

/-- A record that holds the length and the hashes of a prompt. -/
structure Recorded (xxh3 : List UInt8 → UInt64) (record : Value) (size : Nat) (tokens : List Int) :
    Prop extends RequestEnd record where
  size_pos : 1 ≤ size
  blockSize : (replayOf record).get "trace_block_size" = .int size
  length : (replayOf record).get "input_length" = .int tokens.length
  hashes : (replayOf record).get "input_sequence_hashes" =
    .list ((sequenceHashes xxh3 size tokens).map fun h => .int h.toNat)
  inputTokens : tokensMatch (requestOf (eventOf record)) tokens = true

theorem validate_requestEnd {record : Value} (h : RequestEnd record)
    (xxhash : Option (List UInt8 → UInt64)) (tokens : List Int) {m : Metadata}
    (hm : readMetadata (replayOf record) = some m) :
    validateServerPrompt xxhash tokens record =
      compare xxhash tokens (requestOf (eventOf record)) m := by
  have hreplay := h.replay
  rw [replayOf] at hm hreplay
  simp [validateServerPrompt, h.object, h.event, h.kind, h.request, hreplay, hm, bind, Except.bind]

/-- A prompt is compared with well-formed records only. -/
theorem requestEnd_of_verified {record : Value} {xxhash : Option (List UInt8 → UInt64)}
    {tokens : List Int} {result : ServerPrompt}
    (hok : validateServerPrompt xxhash tokens record = .ok result)
    (hverified : result.status = .verified) :
    RequestEnd record ∧ ∃ m, readMetadata (replayOf record) = some m := by
  have hunverifiable : ∀ reason, Except.ok (unverifiable reason) ≠ (.ok result : Except String _) := by
    rintro reason ⟨⟩
    cases hverified
  rw [validateServerPrompt] at hok
  simp only [bind, Except.bind] at hok
  split at hok
  · exact absurd hok (hunverifiable _)
  rename_i hrecord
  split at hok
  · exact absurd hok (hunverifiable _)
  rename_i hevent
  cases hkind : isRequestEnd (eventOf record) with
  | error e => simp [hkind] at hok
  | ok requestEnd =>
    simp only [hkind] at hok
    split at hok
    · exact absurd hok (hunverifiable _)
    rename_i hend
    split at hok
    · exact absurd hok (hunverifiable _)
    rename_i hobjects
    rw [not_or] at hobjects
    simp only [Bool.not_eq_false] at hrecord hevent hend hobjects
    refine ⟨⟨hrecord, hevent, hend ▸ hkind, hobjects.1, hobjects.2⟩, ?_⟩
    cases hm : readMetadata (replayOf record) with
    | none =>
      rw [replayOf] at hm
      simp only [hm] at hok
      exact absurd hok (hunverifiable _)
    | some m => exact ⟨m, rfl⟩

/-! ## Metadata -/

theorem asHash_eq_some {v : Value} {n : Int} :
    asHash v = some n ↔ v = .int n ∧ 0 ≤ n ∧ n ≤ 0xFFFFFFFFFFFFFFFF := by
  cases v with
  | int k =>
    rw [asHash]
    split
    · rename_i h
      rw [Option.some.injEq, Value.int.injEq]
      exact ⟨fun hk => ⟨hk, hk ▸ h⟩, fun hk => hk.1⟩
    · rename_i h
      simp only [reduceCtorEq, Value.int.injEq, false_iff]
      rintro ⟨rfl, hn⟩
      exact h hn
  | _ => simp [asHash]

/-- The hashes that are read are the integers of the record. -/
theorem mapM_asHash : ∀ {hashes : List Value} {expected : List Int},
    hashes.mapM asHash = some expected → hashes = expected.map .int
  | [], expected, h => by
    rw [List.mapM_nil] at h
    cases h
    rfl
  | v :: hashes, expected, h => by
    rw [List.mapM_cons] at h
    simp only [Option.bind_eq_bind, Option.bind_eq_some_iff] at h
    obtain ⟨n, hn, rest, hrest, h⟩ := h
    cases h
    rw [List.map_cons, ← mapM_asHash hrest, (asHash_eq_some.1 hn).1]

theorem mapM_asHash_toNat : ∀ hashes : List UInt64,
    (hashes.map fun h => Value.int h.toNat).mapM asHash = some (hashes.map fun h => (h.toNat : Int))
  | [] => rfl
  | h :: hashes => by
    have hread : asHash (.int h.toNat) = some (h.toNat : Int) :=
      asHash_eq_some.2 ⟨rfl, by omega, by have := h.toNat_lt; omega⟩
    rw [List.map_cons, List.mapM_cons, hread, mapM_asHash_toNat hashes]
    rfl

theorem readMetadata_eq_some {replay : Value} {m : Metadata} :
    readMetadata replay = some m →
      replay.get "trace_block_size" = .int m.size ∧ 1 ≤ m.size ∧
      replay.get "input_length" = .int m.length ∧
      replay.get "input_sequence_hashes" = .list (m.expected.map .int) := by
  rw [readMetadata]
  split
  · rename_i size length hashes hsize hlength hhashes
    split
    · exact nofun
    · rename_i hpos
      rw [Option.map_eq_some_iff]
      rintro ⟨expected, hexpected, rfl⟩
      exact ⟨hsize, Int.not_le.1 fun h => hpos (.inl h), hlength, mapM_asHash hexpected ▸ hhashes⟩
  · exact nofun

/-- What a record of a prompt holds. -/
def metadata (xxh3 : List UInt8 → UInt64) (size : Nat) (tokens : List Int) : Metadata :=
  ⟨size, tokens.length, (sequenceHashes xxh3 size tokens).map fun h => (h.toNat : Int)⟩

theorem Recorded.readMetadata_eq {xxh3 : List UInt8 → UInt64} {record : Value} {size : Nat}
    {tokens : List Int} (h : Recorded xxh3 record size tokens) :
    readMetadata (replayOf record) = some (metadata xxh3 size tokens) := by
  have hpos := h.size_pos
  rw [readMetadata, h.blockSize, h.length, h.hashes]
  simp only
  rw [if_neg (by omega), mapM_asHash_toNat, Option.map_some, metadata]

/-! ## Comparison -/

/-- The tokens of a prompt, as Python's integers. -/
def ids (tokens : List UInt32) : List Int := tokens.map fun token => (token.toNat : Int)

theorem packable_ids (tokens : List UInt32) : Packable (ids tokens) := by
  intro token htoken
  obtain ⟨t, -, rfl⟩ := List.mem_map.1 htoken
  have := t.toNat_lt
  omega

theorem ids_inj {R T : List UInt32} : ids R = ids T ↔ R = T := by
  refine ⟨fun h => ?_, fun h => h ▸ rfl⟩
  refine List.map_injective_iff.2 (fun a b hab => ?_) h
  exact UInt32.toNat_inj.1 (Int.ofNat_inj.1 hab)

theorem packable_blocks {size : Nat} {tokens : List Int} (h : Packable tokens) :
    ∀ block ∈ blocks size tokens, Packable block :=
  fun _ hblock token htoken => h token (mem_of_mem_blocks hblock htoken)

theorem dynamoInputSequenceHashes_eq (xxh3 : List UInt8 → UInt64) {size : Nat} (hsize : 1 ≤ size)
    {tokens : List Int} (h : Packable tokens) :
    dynamoInputSequenceHashes xxh3 tokens size = .ok (sequenceHashes xxh3 size tokens) := by
  have htokens : ¬ ∃ token ∈ tokens, ¬ (0 ≤ token ∧ token ≤ 0xFFFFFFFF) := by
    rintro ⟨token, htoken, hbad⟩
    exact hbad (h token htoken)
  rw [dynamoInputSequenceHashes, Except.failIf, if_neg (by omega), Except.failIf, if_neg htokens]
  rfl

/-- The verdict on a prompt, once its hashes are known. -/
theorem compare_eq {xxh3 : List UInt8 → UInt64} {tokens : List Int} {request : Value} {m : Metadata}
    {hashes : List UInt64}
    (hcount : (m.expected.length : Int) = (m.length + m.size - 1) / m.size)
    (hhashes : dynamoInputSequenceHashes xxh3 tokens m.size = .ok hashes) :
    ∃ result, compare (some xxh3) tokens request m = .ok result ∧
      result.status = (if m.length = tokens.length ∧ tokensMatch request tokens = true ∧
          hashes.map (fun h => (h.toNat : Int)) = m.expected then .verified else .mismatch) ∧
      result.firstMismatchBlock = (if hashes.map (fun h => (h.toNat : Int)) ≠ m.expected then
          some (firstMismatch (hashes.map fun h => (h.toNat : Int)) m.expected) else none) := by
  rw [compare, if_neg (not_not.2 hcount)]
  simp only [hhashes, bind, Except.bind]
  refine ⟨_, rfl, ?_, rfl⟩
  simp only [Bool.and_eq_true, decide_eq_true_eq, and_assoc]

theorem compare_verified {xxhash : Option (List UInt8 → UInt64)} {tokens : List Int}
    {request : Value} {m : Metadata} {result : ServerPrompt}
    (hok : compare xxhash tokens request m = .ok result) (hverified : result.status = .verified) :
    ∃ xxh3, xxhash = some xxh3 ∧ ∃ hashes,
      dynamoInputSequenceHashes xxh3 tokens m.size = .ok hashes ∧ m.length = tokens.length ∧
      tokensMatch request tokens = true ∧ hashes.map (fun h => (h.toNat : Int)) = m.expected := by
  by_cases hcount : (m.expected.length : Int) = (m.length + m.size - 1) / m.size
  · cases xxhash with
    | none =>
      rw [compare, if_neg (not_not.2 hcount)] at hok
      cases hok
      cases hverified
    | some xxh3 =>
      cases hhashes : dynamoInputSequenceHashes xxh3 tokens m.size with
      | error e =>
        rw [compare, if_neg (not_not.2 hcount)] at hok
        simp [hhashes, bind, Except.bind] at hok
      | ok hashes =>
        obtain ⟨result', hok', hstatus, -⟩ := @compare_eq _ _ request _ _ hcount hhashes
        rw [hok, Except.ok.injEq] at hok'
        subst hok'
        rw [hverified] at hstatus
        split at hstatus
        · rename_i h
          exact ⟨xxh3, rfl, hashes, hhashes, h⟩
        · cases hstatus
  · rw [compare, if_pos hcount] at hok
    cases hok
    cases hverified

/-! ## Exactness -/

theorem sequenceHashes_count (xxh3 : List UInt8 → UInt64) {size : Nat} (hsize : 1 ≤ size)
    (tokens : List Int) :
    ((((sequenceHashes xxh3 size tokens).map fun h => (h.toNat : Int)).length : Nat) : Int) =
      ((tokens.length : Int) + size - 1) / size := by
  rw [List.length_map, sequenceHashes, length_chain, length_blocks, Int.natCast_ediv,
    Int.ofNat_sub (by omega), Int.natCast_add, Int.natCast_one]

/-- **A prompt is verified only by a record of its own length and hashes**, and by each of them. -/
theorem validate_verified {tokens : List Int} (htokens : Packable tokens)
    (xxhash : Option (List UInt8 → UInt64)) (record : Value) :
    (∃ result, validateServerPrompt xxhash tokens record = .ok result ∧
        result.status = .verified) ↔
      ∃ xxh3, xxhash = some xxh3 ∧ ∃ size, Recorded xxh3 record size tokens := by
  constructor
  · rintro ⟨result, hok, hverified⟩
    obtain ⟨hend, m, hm⟩ := requestEnd_of_verified hok hverified
    rw [validate_requestEnd hend xxhash tokens hm] at hok
    obtain ⟨xxh3, hxxhash, hashes, hhashes, hlength, hinput, hexpected⟩ :=
      compare_verified hok hverified
    obtain ⟨hsize, hpos, hrecorded, hlist⟩ := readMetadata_eq_some hm
    obtain ⟨size, hcast⟩ := Int.eq_ofNat_of_zero_le (by omega : 0 ≤ m.size)
    rw [hcast] at hhashes hsize hpos
    rw [dynamoInputSequenceHashes_eq xxh3 (by omega) htokens, Except.ok.injEq] at hhashes
    refine ⟨xxh3, hxxhash, size, hend, by omega, hsize, hlength ▸ hrecorded, ?_, hinput⟩
    rw [hlist, ← hexpected, ← hhashes, List.map_map]
    rfl
  · rintro ⟨xxh3, rfl, size, h⟩
    obtain ⟨result, hok, hstatus, -⟩ := @compare_eq xxh3 tokens (requestOf (eventOf record))
      (metadata xxh3 size tokens) _
      (sequenceHashes_count xxh3 h.size_pos tokens)
      (dynamoInputSequenceHashes_eq xxh3 h.size_pos htokens)
    refine ⟨result, ?_, ?_⟩
    · rw [validate_requestEnd h.toRequestEnd _ _ h.readMetadata_eq]
      exact hok
    · rw [hstatus]
      exact if_pos ⟨rfl, h.inputTokens, rfl⟩

/-- Without collisions, prompts with the same hashes are the same. -/
theorem sequenceHashes_inj {xxh3 : List UInt8 → UInt64} {size : Nat} (hsize : 1 ≤ size)
    {a b : List Int} (ha : Packable a) (hb : Packable b)
    (hfree : CollisionFree xxh3 (hashed xxh3 packTokens packPair none (blocks size a) ++
      hashed xxh3 packTokens packPair none (blocks size b))) :
    sequenceHashes xxh3 size a = sequenceHashes xxh3 size b ↔ a = b := by
  rw [sequenceHashes, sequenceHashes,
    chain_inj packTokens_inj packPair_inj (packable_blocks ha) (packable_blocks hb) hfree]
  refine ⟨fun h => ?_, fun h => h ▸ rfl⟩
  rw [← flatten_blocks hsize a, h, flatten_blocks hsize b]

/-- What the verdict is on a prompt `a` and a record of `b`. -/
theorem validate_recorded {xxh3 : List UInt8 → UInt64} {record : Value} {size : Nat} {a b : List Int}
    (ha : Packable a) (hb : Packable b) (h : Recorded xxh3 record size b)
    (hfree : CollisionFree xxh3 (hashed xxh3 packTokens packPair none (blocks size a) ++
      hashed xxh3 packTokens packPair none (blocks size b))) :
    ∃ result, validateServerPrompt (some xxh3) a record = .ok result ∧
      result.status = (if a = b then .verified else .mismatch) ∧
      result.firstMismatchBlock =
        if a = b then none else some (Lists.commonLength (blocks size a) (blocks size b)) := by
  have hcast : Function.Injective fun h : UInt64 => (h.toNat : Int) :=
    fun x y hxy => UInt64.toNat_inj.1 (Int.ofNat_inj.1 hxy)
  have hequal : (sequenceHashes xxh3 size a).map (fun h => (h.toNat : Int)) =
      (sequenceHashes xxh3 size b).map (fun h => (h.toNat : Int)) ↔ a = b := by
    rw [(List.map_injective_iff.2 hcast).eq_iff, sequenceHashes_inj h.size_pos ha hb hfree]
  obtain ⟨result, hok, hstatus, hfirst⟩ := @compare_eq xxh3 a (requestOf (eventOf record))
    (metadata xxh3 size b) _
    (sequenceHashes_count xxh3 h.size_pos b)
    (dynamoInputSequenceHashes_eq xxh3 h.size_pos ha)
  refine ⟨result, ?_, ?_, ?_⟩
  · rw [validate_requestEnd h.toRequestEnd _ _ h.readMetadata_eq]
    exact hok
  · rw [hstatus]
    refine if_congr ⟨fun hall => hequal.1 hall.2.2, ?_⟩ rfl rfl
    rintro rfl
    exact ⟨rfl, h.inputTokens, rfl⟩
  · rw [hfirst, ite_not]
    refine if_congr hequal rfl (congrArg some ?_)
    rw [firstMismatch_eq, metadata, Lists.commonLength_map hcast, sequenceHashes, sequenceHashes]
    exact commonLength_chain packTokens_inj packPair_inj (packable_blocks ha) (packable_blocks hb) hfree

/-- **The verdict on a prompt is exact**: a record of a prompt verifies that prompt and no other, for
another it shows the first block that differs, and no record verifies a prompt unless it has its
lengths and its hashes. -/
theorem server_prompt_exact (xxh3 : List UInt8 → UInt64) (R : List UInt32) (record : Value) :
    (∀ (T : List UInt32) (size : Nat), Recorded xxh3 record size (ids T) →
      CollisionFree xxh3 (hashed xxh3 packTokens packPair none (blocks size (ids R)) ++
        hashed xxh3 packTokens packPair none (blocks size (ids T))) →
      ∃ result, validateServerPrompt (some xxh3) (ids R) record = .ok result ∧
        (result.status = .verified ↔ R = T) ∧
        (R = T → result.firstMismatchBlock = none) ∧
        (R ≠ T → result.status = .mismatch ∧ ∃ i, result.firstMismatchBlock = some i ∧
          (blocks size (ids R))[i]? ≠ (blocks size (ids T))[i]? ∧
          ∀ j < i, (blocks size (ids R))[j]? = (blocks size (ids T))[j]?)) ∧
    ∀ result, validateServerPrompt (some xxh3) (ids R) record = .ok result →
      result.status = .verified → ∃ size, Recorded xxh3 record size (ids R) := by
  constructor
  · intro T size hrecord hfree
    obtain ⟨result, hok, hstatus, hfirst⟩ :=
      validate_recorded (packable_ids R) (packable_ids T) hrecord hfree
    simp only [ids_inj] at hstatus hfirst
    refine ⟨result, hok, ?_, fun hRT => ?_, fun hRT => ?_⟩
    · rw [hstatus]
      split <;> simp_all
    · rw [hfirst, if_pos hRT]
    · rw [if_neg hRT] at hstatus hfirst
      have hblocks : blocks size (ids R) ≠ blocks size (ids T) := by
        intro heq
        refine hRT (ids_inj.1 ?_)
        rw [← flatten_blocks hrecord.size_pos (ids R), heq, flatten_blocks hrecord.size_pos]
      exact ⟨hstatus, _, hfirst, getElem?_commonLength hblocks⟩
  · intro result hok hverified
    obtain ⟨xxh3', hxxh3, hrecorded⟩ :=
      (validate_verified (packable_ids R) (some xxh3) record).1 ⟨result, hok, hverified⟩
    rw [Option.some.injEq] at hxxh3
    exact hxxh3 ▸ hrecorded

/-- A digest for the example below: the sum of the bytes, each weighted by its place. -/
def sampleDigest (bytes : List UInt8) : UInt64 :=
  bytes.foldl (fun digest byte => digest * 257 + byte.toUInt64 + 1) 0

def sampleRecord : Value :=
  .dict [("event_type", .str "request_end"), ("request", .dict [("input_tokens", .int 3), ("replay",
    .dict [("trace_block_size", .int 2), ("input_length", .int 3), ("input_sequence_hashes",
      .list ((sequenceHashes sampleDigest 2 (ids [5, 6, 7])).map fun h => .int h.toNat))])])]

theorem server_prompt_exact_tail :
    Recorded sampleDigest sampleRecord 2 (ids [5, 6, 7]) ∧
    ∃ result, validateServerPrompt (some sampleDigest) (ids [5, 6, 8]) sampleRecord = .ok result ∧
      result.status = .mismatch ∧ result.firstMismatchBlock = some 1 := by
  have hrecord : Recorded sampleDigest sampleRecord 2 (ids [5, 6, 7]) := by
    constructor
    · constructor <;> decide +kernel
    all_goals decide +kernel
  refine ⟨hrecord, ?_⟩
  obtain ⟨result, hok, -, -, hdiffer⟩ := (server_prompt_exact sampleDigest [5, 6, 8] sampleRecord).1
    [5, 6, 7] 2 hrecord (by unfold CollisionFree; decide +kernel)
  obtain ⟨hstatus, i, hi, hne, heq⟩ := hdiffer (by decide)
  refine ⟨result, hok, hstatus, ?_⟩
  have hi1 : i = 1 := by
    match i, hne, heq with
    | 0, hne, _ => exact absurd (by decide +kernel) hne
    | 1, _, _ => rfl
    | i + 2, _, heq => exact absurd (heq 1 (by omega)) (by decide +kernel)
  rw [hi, hi1]

end ReedCode.PrefixAudit
