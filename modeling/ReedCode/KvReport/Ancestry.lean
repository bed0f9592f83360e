import ReedCode.KvReport.Blocks
import ReedCode.Lib.Runs

/-!
# Resolved ancestry

* `PathOf` — the tokens from the root to a block; `Broken` — no such path.
* `walk_ok`, `walk_error` — what the walk through the parents finds.
* `Sound` — resolved blocks have the ids of their paths; `resolveKey_spec` keeps it.
* `resolveBlocks_spec` — **every key is resolved with the id of its path, or is broken.**
-/

set_option autoImplicit false

namespace ReedCode.KvReport

open Interning

universe u

variable {κ : Type u} [DecidableEq κ] {history : FinMap κ (Record κ)}

/-! ## Paths -/

/-- The tokens on the way from the root to a block; `none` stands for the root. -/
inductive PathOf (history : FinMap κ (Record κ)) : Option κ → List (List Int) → Prop
  | root : PathOf history none []
  | block {key : κ} {row : Record κ} {tokens : List Int} {path : List (List Int)}
      (hrow : history.get? key = some row) (htokens : blockTokens row.tokenIds = some tokens)
      (hparent : PathOf history row.parent path) : PathOf history (some key) (path ++ [tokens])

/-- What comes `n` parents above a key. -/
def ancestor (history : FinMap κ (Record κ)) (key : κ) : Nat → Option κ
  | 0 => some key
  | n + 1 => (ancestor history key n).bind fun k => (history.get? k).bind Record.parent

/-- Following the parents of a key reaches a missing key, bad tokens or a key once more. -/
def Broken (history : FinMap κ (Record κ)) (key : κ) : Prop :=
  ∃ n k, ancestor history key n = some k ∧
    (history.get? k = none ∨
      (∃ row, history.get? k = some row ∧ blockTokens row.tokenIds = none) ∨
      ∃ m < n, ancestor history key m = some k)

theorem PathOf.unique : ∀ {cur : Option κ} {p q : List (List Int)}, PathOf history cur p →
    PathOf history cur q → p = q
  | _, _, _, .root, .root => rfl
  | _, _, _, .block hrow htokens hparent, .block hrow' htokens' hparent' => by
    rw [hrow] at hrow'
    cases hrow'
    rw [htokens] at htokens'
    cases htokens'
    rw [PathOf.unique hparent hparent']

/-- A path goes through the ancestors, one block each. -/
theorem PathOf.ancestor {key : κ} {p : List (List Int)} (h : PathOf history (some key) p) :
    ∀ {n : Nat} {k : κ}, ancestor history key n = some k →
      ∃ q, PathOf history (some k) q ∧ q.length + n = p.length
  | 0, k, hk => by
    cases hk
    exact ⟨p, h, rfl⟩
  | n + 1, k, hk => by
    rw [KvReport.ancestor, Option.bind_eq_some_iff] at hk
    obtain ⟨k', hk', hparent⟩ := hk
    obtain ⟨q, hq, hlength⟩ := h.ancestor hk'
    cases hq with
    | block hrow htokens hpath =>
      rw [hrow, Option.bind_some] at hparent
      rw [hparent] at hpath
      refine ⟨_, hpath, ?_⟩
      rw [List.length_append, List.length_singleton] at hlength
      omega

theorem PathOf.not_broken {key : κ} {p : List (List Int)} (h : PathOf history (some key) p) :
    ¬ Broken history key := by
  rintro ⟨n, k, hk, hwhy⟩
  obtain ⟨q, hq, hlength⟩ := h.ancestor hk
  rcases hwhy with hmissing | ⟨row, hrow, hbad⟩ | ⟨m, hm, hagain⟩
  · cases hq with
    | block hrow =>
      rw [hmissing] at hrow
      cases hrow
  · cases hq with
    | block hrow' htokens =>
      rw [hrow] at hrow'
      cases hrow'
      rw [hbad] at htokens
      cases htokens
  · obtain ⟨q', hq', hlength'⟩ := h.ancestor hagain
    rw [hq.unique hq'] at hlength
    omega

/-! ## The walk -/

/-- Blocks from a key upwards, up to a pointer. -/
inductive Links (history : FinMap κ (Record κ)) :
    Option κ → List (κ × List Int) → Option κ → Prop
  | nil (cur : Option κ) : Links history cur [] cur
  | cons {key : κ} {row : Record κ} {tokens : List Int} {rest : List (κ × List Int)}
      {last : Option κ} (hrow : history.get? key = some row)
      (htokens : blockTokens row.tokenIds = some tokens) (hrest : Links history row.parent rest last) :
      Links history (some key) ((key, tokens) :: rest) last

/-- A walk that succeeds adds linked blocks, and ends at the root or at a resolved key. -/
theorem walk_ok {resolved : FinMap κ Nat} {cur : Option κ} {seen : List κ}
    {pending out : List (κ × List Int)} {id : Nat}
    (h : walk history resolved cur seen pending = .ok (id, out)) :
    ∃ new last, out = pending ++ new ∧ Links history cur new last ∧
      ((last = none ∧ id = 0) ∨ ∃ k, last = some k ∧ resolved.get? k = some id) := by
  fun_induction walk history resolved cur seen pending with
  | case1 seen pending =>
    cases h
    exact ⟨[], none, (List.append_nil _).symm, .nil none, Or.inl ⟨rfl, rfl⟩⟩
  | case2 key seen pending id' hget =>
    cases h
    exact ⟨[], some key, (List.append_nil _).symm, .nil _, Or.inr ⟨key, rfl, hget⟩⟩
  | case3 => cases h
  | case4 => cases h
  | case5 => cases h
  | case6 key seen pending hget hseen row hrow tokens htokens ih =>
    obtain ⟨new, last, rfl, hlinks, hlast⟩ := ih h
    exact ⟨(key, tokens) :: new, last, by simp, .cons hrow htokens hlinks, hlast⟩

/-- A walk that fails has found out why. -/
theorem walk_error {resolved : FinMap κ Nat} {start : κ} {cur : Option κ} {seen : List κ}
    {pending : List (κ × List Int)} {error : String}
    (h : walk history resolved cur seen pending = .error error)
    (hcur : ancestor history start seen.length = cur)
    (hseen : ∀ b ∈ seen, ∃ m < seen.length, ancestor history start m = some b) :
    Broken history start := by
  fun_induction walk history resolved cur seen pending with
  | case1 => cases h
  | case2 => cases h
  | case3 key seen pending hget hin =>
    obtain ⟨m, hm, hagain⟩ := hseen key hin
    exact ⟨seen.length, key, hcur, Or.inr (Or.inr ⟨m, hm, hagain⟩)⟩
  | case4 key seen pending hget hnot hmissing =>
    exact ⟨seen.length, key, hcur, Or.inl hmissing⟩
  | case5 key seen pending hget hnot row hrow hbad =>
    exact ⟨seen.length, key, hcur, Or.inr (Or.inl ⟨row, hrow, hbad⟩)⟩
  | case6 key seen pending hget hnot row hrow tokens htokens ih =>
    refine ih h ?_ fun b hb => ?_
    · rw [List.length_cons, ancestor, hcur, Option.bind_some, hrow, Option.bind_some]
    · rcases List.mem_cons.1 hb with rfl | hb
      · exact ⟨seen.length, Nat.lt_succ_self _, hcur⟩
      · obtain ⟨m, hm, hagain⟩ := hseen b hb
        exact ⟨m, Nat.lt_succ_of_lt hm, hagain⟩

/-! ## Resolved blocks -/

/-- Every resolved block has the id of its path. -/
structure Sound (history : FinMap κ (Record κ)) (st : Resolution κ) : Prop where
  valid : Valid st.identity.nodes
  path : ∀ {k id}, st.resolved.get? k = some id →
    ∃ path, PathOf history (some k) path ∧ idOf st.identity.nodes path = some id

/-- What never changes while blocks are resolved. -/
structure Kept (st st' : Resolution κ) : Prop where
  grown : Extends st.identity.nodes st'.identity.nodes
  resolved : ∀ {k}, k ∈ st.resolved.keys → k ∈ st'.resolved.keys
  unresolved : st'.unresolved = st.unresolved
  blockSize : st'.identity.blockSize = st.identity.blockSize

theorem Kept.refl (st : Resolution κ) : Kept st st := ⟨Extends.refl _, fun h => h, rfl, rfl⟩

theorem Kept.trans {st st' st'' : Resolution κ} (h : Kept st st') (h' : Kept st' st'') :
    Kept st st'' :=
  ⟨h.grown.trans h'.grown, fun hk => h'.resolved (h.resolved hk),
    h'.unresolved.trans h.unresolved, h'.blockSize.trans h.blockSize⟩

/-- **One pending block**, below a parent whose id is known. -/
theorem assign_spec {st : Nat × Resolution κ} {key : κ} {row : Record κ} {tokens : List Int}
    {base : List (List Int)} (hsound : Sound history st.2)
    (hrow : history.get? key = some row) (htokens : blockTokens row.tokenIds = some tokens)
    (hbase : PathOf history row.parent base) (hid : idOf st.2.identity.nodes base = some st.1) :
    Sound history (assign st (key, tokens)).2 ∧ Kept st.2 (assign st (key, tokens)).2 ∧
      key ∈ (assign st (key, tokens)).2.resolved.keys ∧
      idOf (assign st (key, tokens)).2.identity.nodes (base ++ [tokens]) =
        some (assign st (key, tokens)).1 := by
  have hsize : st.1 ≤ st.2.identity.nodes.size :=
    follow_le_size hsound.valid (Nat.zero_le _) hid
  have hnode := @setdefault_spec _ _ st.2.identity.nodes hsound.valid (st.1, tokens) hsize
  unfold assign
  dsimp only
  generalize setdefault st.2.identity.nodes (st.1, tokens) = r at hnode
  obtain ⟨id, nodes⟩ := r
  obtain ⟨hvalid, hextends, hget⟩ := hnode
  have hpath : idOf nodes (base ++ [tokens]) = some id := by
    rw [idOf_snoc, show idOf nodes base = some st.1 from hextends.follow hid]
    exact hget
  refine ⟨⟨hvalid, fun {k i} hk => ?_⟩, ⟨hextends, fun {k} hk => ?_, rfl, rfl⟩, ?_, hpath⟩
  · rw [FinMap.get?_insert] at hk
    by_cases he : key = k
    · rw [if_pos he] at hk
      cases hk
      exact he ▸ ⟨base ++ [tokens], .block hrow htokens hbase, hpath⟩
    · rw [if_neg he] at hk
      obtain ⟨path, hof, hpathId⟩ := hsound.path hk
      exact ⟨path, hof, hextends.follow hpathId⟩
  · exact FinMap.mem_keys_insert.2 (Or.inr hk)
  · exact FinMap.mem_keys_insert.2 (Or.inl rfl)

/-- **The pending blocks**, from the last one down to the first. -/
theorem assign_links {st : Nat × Resolution κ} (hsound : Sound history st.2) :
    ∀ {cur last : Option κ} {new : List (κ × List Int)} {base : List (List Int)},
      Links history cur new last → PathOf history last base →
      idOf st.2.identity.nodes base = some st.1 →
      Sound history (new.reverse.foldl assign st).2 ∧ Kept st.2 (new.reverse.foldl assign st).2 ∧
        (∀ entry ∈ new, entry.1 ∈ (new.reverse.foldl assign st).2.resolved.keys) ∧
        ∃ path, PathOf history cur path ∧
          idOf (new.reverse.foldl assign st).2.identity.nodes path =
            some (new.reverse.foldl assign st).1
  | _, _, _, base, .nil cur, hbase, hid => ⟨hsound, Kept.refl _, nofun, base, hbase, hid⟩
  | _, _, _, base, @Links.cons _ _ _ key _ tokens _ _ hrow htokens hrest, hbase, hid => by
    obtain ⟨hsound', hkept, hin, path, hpath, hpathId⟩ := assign_links hsound hrest hbase hid
    rw [List.reverse_cons, List.foldl_append]
    obtain ⟨hsound'', hkept', hkey, hid'⟩ := assign_spec hsound' hrow htokens hpath hpathId
    refine ⟨hsound'', hkept.trans hkept', fun entry hentry => ?_, path ++ [tokens],
      .block hrow htokens hpath, hid'⟩
    rcases List.mem_cons.1 hentry with rfl | hentry
    · exact hkey
    · exact hkept'.resolved (hin entry hentry)

/-- A key that is resolved. -/
theorem resolve_ok {st st' : Resolution κ} {key : κ} (hsound : Sound history st)
    (h : resolve history st key = .ok st') :
    Sound history st' ∧ Kept st st' ∧ key ∈ st'.resolved.keys := by
  unfold resolve at h
  obtain ⟨⟨id, pending⟩, hwalk, h⟩ := Except.bind_eq_ok_iff.1 h
  cases h
  obtain ⟨new, last, rfl, hlinks, hlast⟩ := walk_ok hwalk
  have hbase : ∃ base, PathOf history last base ∧ idOf st.identity.nodes base = some id := by
    rcases hlast with ⟨rfl, rfl⟩ | ⟨k, rfl, hk⟩
    · exact ⟨[], .root, rfl⟩
    · exact hsound.path hk
  obtain ⟨base, hbase, hid⟩ := hbase
  obtain ⟨hsound', hkept, hin, -⟩ := @assign_links κ _ history (id, st) hsound _ _ _ _ hlinks hbase hid
  refine ⟨hsound', hkept, ?_⟩
  cases hlinks with
  | nil =>
    rcases hlast with ⟨hnone, -⟩ | ⟨k, hsome, hk⟩
    · cases hnone
    · cases hsome
      exact hkept.resolved (FinMap.mem_keys_of_get? hk)
  | cons => exact hin _ List.mem_cons_self

theorem resolve_error {st : Resolution κ} {key : κ} {error : String}
    (h : resolve history st key = .error error) : Broken history key := by
  unfold resolve at h
  rcases Except.bind_eq_error_iff.1 h with hwalk | ⟨r, -, h⟩
  · exact walk_error hwalk rfl nofun
  · cases h

/-! ## All keys -/

/-- The state after some keys. -/
structure Done (history : FinMap κ (Record κ)) (identity : BlockIdentity) (keys : List κ)
    (st : Resolution κ) : Prop where
  sound : Sound history st
  grown : Extends identity.nodes st.identity.nodes
  blockSize : st.identity.blockSize = identity.blockSize
  broken : ∀ k ∈ st.unresolved.keys, k ∈ keys ∧ Broken history k
  all : ∀ k ∈ keys, k ∈ st.resolved.keys ∨ k ∈ st.unresolved.keys

theorem resolveKey_spec {identity : BlockIdentity} {keys : List κ} {st : Resolution κ} {key : κ}
    (h : Done history identity keys st) :
    Done history identity (keys ++ [key]) (resolveKey history st key) := by
  unfold resolveKey
  cases hresolve : resolve history st key with
  | ok st' =>
    obtain ⟨hsound, hkept, hkey⟩ := resolve_ok h.sound hresolve
    refine ⟨hsound, h.grown.trans hkept.grown, hkept.blockSize.trans h.blockSize,
      fun k hk => ?_, fun k hk => ?_⟩
    · rw [hkept.unresolved] at hk
      obtain ⟨hin, hbroken⟩ := h.broken k hk
      exact ⟨List.mem_append_left _ hin, hbroken⟩
    · rcases List.mem_append.1 hk with hk | hk
      · rw [hkept.unresolved]
        exact (h.all k hk).imp_left fun hr => hkept.resolved hr
      · cases List.mem_singleton.1 hk
        exact Or.inl hkey
  | error error =>
    have hbroken := resolve_error hresolve
    refine ⟨⟨h.sound.valid, h.sound.path⟩, h.grown, h.blockSize, fun k hk => ?_, fun k hk => ?_⟩
    · rcases FinMap.mem_keys_insert.1 hk with rfl | hk
      · exact ⟨by simp, hbroken⟩
      · obtain ⟨hin, hb⟩ := h.broken k hk
        exact ⟨List.mem_append_left _ hin, hb⟩
    · rcases List.mem_append.1 hk with hk | hk
      · exact (h.all k hk).imp_right fun hu => FinMap.mem_keys_insert.2 (Or.inr hu)
      · cases List.mem_singleton.1 hk
        exact Or.inr (FinMap.mem_keys_insert.2 (Or.inl rfl))

theorem resolveKeys_spec {identity : BlockIdentity} : ∀ {rest keys : List κ} {st : Resolution κ},
    Done history identity keys st →
      Done history identity (keys ++ rest) (rest.foldl (resolveKey history) st)
  | [], keys, st, h => by
    rw [List.append_nil]
    exact h
  | key :: rest, keys, st, h => by
    have hrest := @resolveKeys_spec identity rest _ _ (@resolveKey_spec κ _ history _ _ _ key h)
    rwa [List.append_assoc] at hrest

/-- **Every key is resolved with the id of its path, or is broken.** -/
theorem resolveBlocks_spec {identity : BlockIdentity} (hvalid : Valid identity.nodes) :
    Done history identity history.keys (resolveBlocks history identity) :=
  @resolveKeys_spec κ _ history identity history.keys [] _ ⟨⟨hvalid, nofun⟩, Extends.refl _, rfl, nofun, nofun⟩

end ReedCode.KvReport
