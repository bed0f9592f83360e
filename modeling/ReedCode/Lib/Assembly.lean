import Mathlib.Data.List.Sort
import Mathlib.Data.List.Range
import ReedCode.Lib.FinMap

/-!
# Assembling streamed fragments

Fragments come interleaved, each under a key, and what is put together under a key is read once all
have come.

* `addText` — texts appended key by key; `get?_foldl_addText`.
* `collect` — calls with a name, an argument text and one id, put together by key;
  `collectAll_eq_some` tells when no id changes and what each call then is.
* `inOrder` — the values under the keys `0 … n-1`; `inOrder_eq_some` reads it as look-ups.
-/

set_option autoImplicit false

universe u

/-! ## Texts by key -/

namespace Assembly

section Texts

variable {K : Type u} [DecidableEq K]

/-- `m[k] = (m.get(k) or "") + text`. -/
def addText (m : FinMap K String) (fragment : K × String) : FinMap K String :=
  m.insert fragment.1 ((m.get? fragment.1).getD "" ++ fragment.2)

/-- The texts under a key, in order. -/
def textsAt (k : K) (fragments : List (K × String)) : List String :=
  (fragments.filter fun fragment => fragment.1 = k).map Prod.snd

theorem textsAt_cons (k : K) (fragment : K × String) (fragments : List (K × String)) :
    textsAt k (fragment :: fragments) =
      if fragment.1 = k then fragment.2 :: textsAt k fragments else textsAt k fragments := by
  unfold textsAt
  by_cases h : fragment.1 = k
  · rw [if_pos h, List.filter_cons_of_pos (by simp [h]), List.map_cons]
  · rw [if_neg h, List.filter_cons_of_neg (by simp [h])]

theorem textsAt_append (k : K) (xs ys : List (K × String)) :
    textsAt k (xs ++ ys) = textsAt k xs ++ textsAt k ys := by
  simp only [textsAt, List.filter_append, List.map_append]

theorem textsAt_filter (k : K) (p : String → Bool) (fragments : List (K × String)) :
    textsAt k (fragments.filter fun fragment => p fragment.2) = (textsAt k fragments).filter p := by
  unfold textsAt
  rw [List.filter_map, List.filter_filter, List.filter_filter]
  congr 1
  exact List.filter_congr fun fragment _ => Bool.and_comm _ _

/-- What is put together under a key. -/
def textOf (texts : List String) : Option String :=
  if texts = [] then none else some (String.join texts)

theorem get?_foldl_addText (k : K) : ∀ (fragments : List (K × String)) (m : FinMap K String),
    (fragments.foldl addText m).get? k =
      if textsAt k fragments = [] then m.get? k
      else some ((m.get? k).getD "" ++ String.join (textsAt k fragments))
  | [], _ => rfl
  | fragment :: fragments, m => by
    rw [List.foldl_cons, get?_foldl_addText k fragments, addText, FinMap.get?_insert, textsAt_cons]
    by_cases h : fragment.1 = k
    · rw [if_pos h, if_pos h, if_neg (List.cons_ne_nil _ _), Option.getD_some, String.join_cons, h]
      by_cases hrest : textsAt k fragments = []
      · rw [if_pos hrest, hrest, String.join_nil, String.append_empty]
      · rw [if_neg hrest, String.append_assoc]
    · rw [if_neg h, if_neg h]

theorem get?_addTexts (k : K) (fragments : List (K × String)) :
    (fragments.foldl addText .empty).get? k = textOf (textsAt k fragments) := by
  rw [get?_foldl_addText, textOf]
  split
  · rfl
  · rw [FinMap.get?_empty, Option.getD_none, String.empty_append]

/-- Empty texts add nothing. -/
theorem join_filter_ne_empty : ∀ texts : List String,
    String.join (texts.filter (· ≠ "")) = String.join texts
  | [] => rfl
  | text :: texts => by
    by_cases h : text = ""
    · rw [List.filter_cons_of_neg (by simp [h]), join_filter_ne_empty texts, String.join_cons, h,
        String.empty_append]
    · rw [List.filter_cons_of_pos (by simp [h]), String.join_cons, String.join_cons,
        join_filter_ne_empty texts]

theorem textOf_getD (texts : List String) : (textOf texts).getD "" = String.join texts := by
  unfold textOf
  split
  · rename_i h
    rw [h]
    rfl
  · rfl

theorem textOf_eq_iff {xs ys : List String} :
    textOf xs = textOf ys ↔ (xs = [] ↔ ys = []) ∧ String.join xs = String.join ys := by
  unfold textOf
  by_cases hx : xs = [] <;> by_cases hy : ys = [] <;> simp [hx, hy]

theorem textOf_append {xs xs' ys ys' : List String} (hx : textOf xs = textOf xs')
    (hy : textOf ys = textOf ys') : textOf (xs ++ ys) = textOf (xs' ++ ys') := by
  rw [textOf_eq_iff] at hx hy ⊢
  rw [List.append_eq_nil_iff, List.append_eq_nil_iff, hx.1, hy.1, String.join_append,
    String.join_append, hx.2, hy.2]
  exact ⟨Iff.rfl, rfl⟩

end Texts

/-! ## Calls by key -/

/-- A fragment of a call: its key, its id if it gives one, and two texts. -/
structure Fragment (K : Type u) where
  key : K
  id : Option String
  name : String
  arguments : String
  deriving DecidableEq, Repr

structure Call where
  id : Option String
  name : String
  arguments : String
  deriving DecidableEq, Repr

def Call.new : Call := ⟨none, "", ""⟩

section Calls

variable {K : Type u}

def Call.add (call : Call) (f : Fragment K) : Call :=
  ⟨f.id.or call.id, call.name ++ f.name, call.arguments ++ f.arguments⟩

/-- The call that some fragments of one key make. -/
def callOf (fragments : List (Fragment K)) : Option Call :=
  if fragments = [] then none
  else some
    { id := (fragments.filterMap Fragment.id).getLast?
      name := String.join (fragments.map Fragment.name)
      arguments := String.join (fragments.map Fragment.arguments) }

theorem callOf_append (fragments : List (Fragment K)) (f : Fragment K) :
    callOf (fragments ++ [f]) = some (((callOf fragments).getD .new).add f) := by
  have hne : fragments ++ [f] ≠ [] := by simp
  have hjoin : ∀ x : String, String.join [x] = x := fun x => by
    rw [String.join_cons, String.join_nil, String.append_empty]
  rw [callOf, if_neg hne, List.filterMap_append, List.map_append, List.map_append,
    String.join_append, String.join_append, List.map_singleton, List.map_singleton, hjoin, hjoin,
    List.getLast?_append]
  have hid : ([f].filterMap Fragment.id).getLast? = f.id := by
    cases hf : f.id with
    | none => rw [List.filterMap_cons_none hf]; rfl
    | some id => rw [List.filterMap_cons_some hf]; rfl
  rw [hid]
  by_cases hnil : fragments = []
  · subst hnil
    rfl
  · rw [callOf, if_neg hnil]
    rfl

theorem callOf_eq_none {fragments : List (Fragment K)} :
    callOf fragments = none ↔ fragments = [] := by
  unfold callOf
  split <;> simp_all

theorem callOf_eq_some {fragments : List (Fragment K)} {call : Call}
    (h : callOf fragments = some call) : fragments ≠ [] ∧
      call.id = (fragments.filterMap Fragment.id).getLast? ∧
      call.name = String.join (fragments.map Fragment.name) ∧
      call.arguments = String.join (fragments.map Fragment.arguments) := by
  unfold callOf at h
  split at h
  · cases h
  · rename_i hne
    cases h
    exact ⟨hne, rfl, rfl, rfl⟩

theorem callOf_eq_iff {xs ys : List (Fragment K)} :
    callOf xs = callOf ys ↔ (xs = [] ↔ ys = []) ∧
      (xs.filterMap Fragment.id).getLast? = (ys.filterMap Fragment.id).getLast? ∧
      String.join (xs.map Fragment.name) = String.join (ys.map Fragment.name) ∧
      String.join (xs.map Fragment.arguments) = String.join (ys.map Fragment.arguments) := by
  unfold callOf
  by_cases hx : xs = [] <;> by_cases hy : ys = [] <;> simp [hx, hy]

/-- The call of a whole depends on its parts only through their calls. -/
theorem callOf_append_congr {xs xs' ys ys' : List (Fragment K)} (hx : callOf xs = callOf xs')
    (hy : callOf ys = callOf ys') : callOf (xs ++ ys) = callOf (xs' ++ ys') := by
  rw [callOf_eq_iff] at hx hy ⊢
  obtain ⟨hx₁, hx₂, hx₃, hx₄⟩ := hx
  obtain ⟨hy₁, hy₂, hy₃, hy₄⟩ := hy
  simp only [List.append_eq_nil_iff, List.filterMap_append, List.getLast?_append, List.map_append,
    String.join_append, hx₁, hx₂, hx₃, hx₄, hy₁, hy₂, hy₃, hy₄, true_and]

variable [DecidableEq K]

def fragmentsAt (k : K) (fragments : List (Fragment K)) : List (Fragment K) :=
  fragments.filter fun f => f.key = k

theorem fragmentsAt_append (k : K) (xs ys : List (Fragment K)) :
    fragmentsAt k (xs ++ ys) = fragmentsAt k xs ++ fragmentsAt k ys := List.filter_append ..

theorem fragmentsAt_singleton (k : K) (f : Fragment K) :
    fragmentsAt k [f] = if f.key = k then [f] else [] := by
  by_cases h : f.key = k <;> simp [fragmentsAt, h]

/-- No two ids under one key differ. -/
def IdsAgree (fragments : List (Fragment K)) : Prop :=
  ∀ f ∈ fragments, ∀ f' ∈ fragments, f.key = f'.key → ∀ a b, f.id = some a → f'.id = some b → a = b

/-- One fragment; `none` where the id of a call would change. -/
def collect (m : FinMap K Call) (f : Fragment K) : Option (FinMap K Call) :=
  let call := (m.get? f.key).getD .new
  if f.id.isSome ∧ call.id ≠ none ∧ call.id ≠ f.id then none
  else some (m.insert f.key (call.add f))

/-- Every key has the call of its fragments. -/
def Collected (fragments : List (Fragment K)) (m : FinMap K Call) : Prop :=
  ∀ k, m.get? k = callOf (fragmentsAt k fragments)

/-- The id a call has is that of one of its fragments, and any other. -/
theorem callOf_id {fragments : List (Fragment K)} {k : K} {a : String} (hagree : IdsAgree fragments)
    (ha : (callOf (fragmentsAt k fragments)).bind Call.id = some a) :
    (∃ f ∈ fragments, f.key = k ∧ f.id = some a) ∧
      ∀ f ∈ fragments, f.key = k → ∀ b, f.id = some b → b = a := by
  unfold callOf at ha
  split at ha
  · cases ha
  · rw [Option.bind_some] at ha
    have hmem := List.mem_of_getLast? ha
    obtain ⟨f, hf, hid⟩ := List.mem_filterMap.1 hmem
    rw [fragmentsAt, List.mem_filter, decide_eq_true_eq] at hf
    exact ⟨⟨f, hf.1, hf.2, hid⟩, fun f' hf' hk b hb =>
      hagree f' hf' f hf.1 (hk.trans hf.2.symm) b a hb hid⟩

theorem callOf_id_none {fragments : List (Fragment K)} {k : K}
    (hnone : (callOf (fragmentsAt k fragments)).bind Call.id = none) :
    ∀ f ∈ fragments, f.key = k → f.id = none := by
  intro f hf hk
  have hmem : f ∈ fragmentsAt k fragments := List.mem_filter.2 ⟨hf, decide_eq_true hk⟩
  unfold callOf at hnone
  rw [if_neg (List.ne_nil_of_mem hmem), Option.bind_some, List.getLast?_eq_none_iff,
    List.filterMap_eq_nil_iff] at hnone
  exact hnone f hmem

/-- One more fragment: it is refused exactly if its id disagrees. -/
theorem collect_step {fragments : List (Fragment K)} {m : FinMap K Call}
    (hagree : IdsAgree fragments) (hm : Collected fragments m) (f : Fragment K) :
    (collect m f = none ∧ ¬ IdsAgree (fragments ++ [f])) ∨
      ∃ m', collect m f = some m' ∧ IdsAgree (fragments ++ [f]) ∧
        Collected (fragments ++ [f]) m' := by
  have hcall : ((m.get? f.key).getD .new).id =
      (callOf (fragmentsAt f.key fragments)).bind Call.id := by
    rw [hm]
    cases callOf (fragmentsAt f.key fragments) <;> rfl
  unfold collect
  dsimp only
  split
  · rename_i hbad
    refine Or.inl ⟨rfl, fun hall => ?_⟩
    obtain ⟨hsome, hne, hdiff⟩ := hbad
    obtain ⟨b, hb⟩ := Option.isSome_iff_exists.1 hsome
    obtain ⟨a, ha⟩ := Option.ne_none_iff_exists'.1 hne
    obtain ⟨⟨f', hf', hk, hid⟩, _⟩ := callOf_id hagree (hcall.symm.trans ha)
    have hab : a = b := hall f' (List.mem_append_left _ hf') f (by simp) hk a b hid hb
    exact hdiff (by rw [ha, hb, hab])
  · rename_i hok
    refine Or.inr ⟨_, rfl, ?_, fun k => ?_⟩
    · -- what is new agrees with the call, and so with every fragment of its key
      have hnew : ∀ f' ∈ fragments, f'.key = f.key → ∀ a b, f'.id = some a → f.id = some b →
          a = b := by
        intro f' hf' hk a b ha hb
        cases hid : ((m.get? f.key).getD .new).id with
        | none =>
          have hnone := callOf_id_none (hcall.symm.trans hid) f' hf' hk
          rw [ha] at hnone
          cases hnone
        | some c =>
          have hac := (callOf_id hagree (hcall.symm.trans hid)).2 f' hf' hk a ha
          have hcb : some c = some b := by
            refine Classical.not_not.1 fun hne => hok ⟨by rw [hb]; rfl, by rw [hid]; simp, ?_⟩
            rw [hid, hb]
            exact hne
          rw [hac]
          exact Option.some.inj hcb
      intro f₁ h₁ f₂ h₂ hk a b ha hb
      rw [List.mem_append, List.mem_singleton] at h₁ h₂
      rcases h₁ with h₁ | rfl <;> rcases h₂ with h₂ | rfl
      · exact hagree f₁ h₁ f₂ h₂ hk a b ha hb
      · exact hnew f₁ h₁ hk a b ha hb
      · exact (hnew f₂ h₂ hk.symm b a hb ha).symm
      · exact Option.some.inj (ha.symm.trans hb)
    · rw [FinMap.get?_insert, fragmentsAt_append, fragmentsAt_singleton]
      by_cases hk : f.key = k
      · rw [if_pos hk, if_pos hk, callOf_append, hm, hk]
      · rw [if_neg hk, if_neg hk, List.append_nil, hm]

omit [DecidableEq K] in
theorem IdsAgree.of_append {xs ys : List (Fragment K)} (h : IdsAgree (xs ++ ys)) : IdsAgree xs :=
  fun f hf f' hf' => h f (List.mem_append_left _ hf) f' (List.mem_append_left _ hf')

theorem foldlM_collect {m : FinMap K Call} : ∀ {fs before : List (Fragment K)},
    IdsAgree before → Collected before m →
      (fs.foldlM collect m = none ∧ ¬ IdsAgree (before ++ fs)) ∨
        ∃ m', fs.foldlM collect m = some m' ∧ IdsAgree (before ++ fs) ∧
          Collected (before ++ fs) m'
  | [], before, hagree, hm => by
    rw [List.append_nil]
    exact Or.inr ⟨m, rfl, hagree, hm⟩
  | f :: fs, before, hagree, hm => by
    have happ : before ++ f :: fs = (before ++ [f]) ++ fs := by simp
    rw [List.foldlM_cons, happ]
    rcases collect_step hagree hm f with ⟨hnone, hbad⟩ | ⟨m₁, h₁, hagree₁, hm₁⟩
    · rw [hnone]
      exact Or.inl ⟨rfl, fun h => hbad h.of_append⟩
    · rw [h₁]
      exact foldlM_collect hagree₁ hm₁

/-- **All fragments**: they are taken exactly if no id changes, and make the call of every key. -/
theorem collectAll_eq_some {fragments : List (Fragment K)} :
    ((fragments.foldlM collect .empty).isSome ↔ IdsAgree fragments) ∧
      ∀ m, fragments.foldlM collect .empty = some m → Collected fragments m := by
  have hstart : Collected ([] : List (Fragment K)) .empty := fun _ => rfl
  have hempty : IdsAgree ([] : List (Fragment K)) := fun _ h => (by cases h)
  rcases @foldlM_collect K _ .empty fragments [] hempty hstart with ⟨hnone, hbad⟩ | ⟨m, hm, hok, hcol⟩
  · rw [hnone]
    exact ⟨iff_of_false (by simp) hbad, fun m hm => (by cases hm)⟩
  · rw [hm]
    refine ⟨iff_of_true rfl hok, fun m' hm' => ?_⟩
    cases hm'
    exact hcol

end Calls

/-! ## Splits of a list -/

/-- What holds at every place of a longer list. -/
theorem forall_split_append_singleton {α : Type u} {P : List α → α → Prop} {as : List α} {x : α} :
    (∀ before a after, as ++ [x] = before ++ a :: after → P before a) ↔
      (∀ before a after, as = before ++ a :: after → P before a) ∧ P as x := by
  constructor
  · intro h
    refine ⟨fun before a after he => h before a (after ++ [x]) ?_, h as x [] rfl⟩
    rw [he, List.append_assoc, List.cons_append]
  · rintro ⟨hold, hnew⟩ before a after he
    rcases List.eq_nil_or_concat after with rfl | ⟨after', y, rfl⟩
    · obtain ⟨h₁, h₂⟩ := List.append_inj' he rfl
      rw [List.singleton_inj] at h₂
      exact h₁ ▸ h₂ ▸ hnew
    · have he' : as ++ [x] = (before ++ a :: after') ++ [y] := by simpa using he
      exact hold before a after' (List.append_inj' he' rfl).1

/-! ## Keys without gaps -/

section Order

variable {V : Type u}

/-- The values by ascending keys, if the keys are `0 … n-1`. -/
def inOrder (m : FinMap Int V) : Option (List V) :=
  let keys := m.keys.insertionSort (· ≤ ·)
  if keys = (List.range m.size).map Int.ofNat then some (keys.filterMap m.get?) else none

/-- Values of `0 … n-1`, all of which are there. -/
theorem filterMap_range {f : Nat → Option V} : ∀ {size : Nat}, (∀ n < size, (f n).isSome) →
    ((List.range size).filterMap f).length = size ∧
      ∀ n < size, ((List.range size).filterMap f)[n]? = f n
  | 0, _ => ⟨rfl, fun _ h => absurd h (Nat.not_lt_zero _)⟩
  | size + 1, hall => by
    obtain ⟨hlen, hget⟩ := filterMap_range fun n hn => hall n (Nat.lt_succ_of_lt hn)
    obtain ⟨v, hv⟩ := Option.isSome_iff_exists.1 (hall size (Nat.lt_succ_self size))
    rw [List.range_succ, List.filterMap_append, List.filterMap_cons_some hv, List.filterMap_nil]
    refine ⟨by rw [List.length_append, hlen, List.length_singleton], fun n hn => ?_⟩
    by_cases hlast : n = size
    · rw [hlast, List.getElem?_append_right (by rw [hlen]), hlen, Nat.sub_self, hv]
      rfl
    · have hlt : n < size := by omega
      rw [List.getElem?_append_left (by rw [hlen]; exact hlt), hget n hlt]

theorem filterMap_range_getElem? (vs : List V) :
    (List.range vs.length).filterMap (fun n => vs[n]?) = vs := by
  obtain ⟨hlen, hget⟩ := @filterMap_range V (fun n => vs[n]?) vs.length fun n hn => by
    rw [List.getElem?_eq_getElem hn]
    rfl
  refine List.ext_getElem? fun n => ?_
  by_cases hn : n < vs.length
  · exact hget n hn
  · rw [List.getElem?_eq_none (by rw [hlen]; exact Nat.le_of_not_lt hn),
      List.getElem?_eq_none (Nat.le_of_not_lt hn)]

theorem inOrder_eq_some {m : FinMap Int V} {vs : List V} :
    inOrder m = some vs ↔ ∀ i : Int, m.get? i = if 0 ≤ i then vs[i.toNat]? else none := by
  unfold inOrder
  dsimp only
  constructor
  · intro h i
    split at h
    · rename_i hkeys
      rw [Option.some.injEq] at h
      have hmem : ∀ i : Int, (m.get? i).isSome ↔ ∃ n < m.size, Int.ofNat n = i := by
        intro i
        rw [← FinMap.mem_keys, ← (List.perm_insertionSort (· ≤ ·) m.keys).mem_iff, hkeys]
        simp
      rw [hkeys, List.filterMap_map] at h
      obtain ⟨hlen, hvalues⟩ := @filterMap_range V (m.get? ∘ Int.ofNat) m.size fun n hn =>
        (hmem _).2 ⟨n, hn, rfl⟩
      rw [h] at hlen hvalues
      split
      · rename_i hpos
        obtain ⟨n, rfl⟩ := Int.eq_ofNat_of_zero_le hpos
        by_cases hn : n < m.size
        · exact (hvalues n hn).symm
        · have hnone : m.get? (n : Int) = none := by
            rw [← Option.not_isSome_iff_eq_none, hmem]
            rintro ⟨k, hk, he⟩
            exact hn (by rw [← Int.ofNat.inj he]; exact hk)
          rw [hnone, Int.toNat_natCast, eq_comm, List.getElem?_eq_none_iff, hlen]
          exact Nat.le_of_not_lt hn
      · rename_i hneg
        rw [← Option.not_isSome_iff_eq_none, hmem]
        rintro ⟨n, _, rfl⟩
        exact hneg (Int.natCast_nonneg n)
    · cases h
  · intro h
    have hmem : ∀ i : Int, i ∈ m.keys ↔ ∃ n < vs.length, Int.ofNat n = i := by
      intro i
      rw [FinMap.mem_keys, h]
      split
      · rename_i hpos
        obtain ⟨n, rfl⟩ := Int.eq_ofNat_of_zero_le hpos
        have hn : (vs[n]?).isSome ↔ n < vs.length := by simp
        rw [Int.toNat_natCast, hn]
        constructor
        · exact fun hn => ⟨n, hn, rfl⟩
        · rintro ⟨k, hk, he⟩
          exact Int.ofNat.inj he ▸ hk
      · rename_i hneg
        refine iff_of_false (by simp) ?_
        rintro ⟨n, _, rfl⟩
        exact hneg (Int.natCast_nonneg n)
    have hnodup : ((List.range vs.length).map Int.ofNat).Nodup :=
      List.nodup_range.map fun _ _ he => Int.ofNat.inj he
    have hperm : m.keys.Perm ((List.range vs.length).map Int.ofNat) := by
      rw [List.perm_ext_iff_of_nodup m.keys_nodup hnodup]
      intro i
      rw [hmem]
      simp
    have hsize : m.size = vs.length := by
      rw [← FinMap.length_keys, hperm.length_eq, List.length_map, List.length_range]
    have hsorted : ((List.range vs.length).map Int.ofNat).Pairwise (· ≤ ·) := by
      rw [List.pairwise_map]
      exact List.pairwise_lt_range.imp fun hlt => Int.ofNat_le.2 (Nat.le_of_lt hlt)
    have hkeys : m.keys.insertionSort (· ≤ ·) = (List.range m.size).map Int.ofNat := by
      rw [hsize]
      exact ((List.perm_insertionSort _ _).trans hperm).eq_of_pairwise'
        (List.pairwise_insertionSort _ _) hsorted
    rw [if_pos hkeys, hkeys, List.filterMap_map, hsize, Option.some.injEq]
    refine Eq.trans (List.filterMap_congr fun n _ => ?_) (filterMap_range_getElem? vs)
    rw [Function.comp_apply, h]
    exact if_pos (Int.natCast_nonneg n)

end Order

end Assembly
