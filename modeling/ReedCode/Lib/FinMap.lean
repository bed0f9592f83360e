import Mathlib.Data.List.Nodup
import Mathlib.Data.List.Perm.Basic

/-!
# Insertion-ordered finite maps

A finite map is its list of entries with pairwise distinct keys, kept as a field so that
a map with a repeated key cannot be built.  `insert` overwrites in place or appends at the
end, which is the discipline of an insertion-ordered dictionary; clients that model a hash
map simply never look at the order.

* `get?_insert`, `get?_erase`, `get?_mapVals`, `get?_filter`, `get?_moveToEnd` — look-ups
  through every operation;
* `mem_keys`, `mem_entries` — keys and entries against look-ups;
* `insert_insert` — the last write of a key counts;
* `size_insert_of_none`, `size_erase_of_some` — sizes;
* `count_insert_of_none`, `count_insert_of_some`, `count_erase_of_some`, `count_pos_iff` — counting the entries
  that satisfy a predicate;
* `Related` — the same keys in the same order with related values, through look-up and insertion.
-/

set_option autoImplicit false

universe u v w

/-- A finite map as a list of entries with distinct keys. -/
structure FinMap (K : Type u) (V : Type v) where
  entries : List (K × V)
  nodup : (entries.map Prod.fst).Nodup

namespace FinMap

variable {K : Type u} {V : Type v} {W : Type w}

@[ext]
theorem ext {m m' : FinMap K V} (h : m.entries = m'.entries) : m = m' := by
  cases m; cases m'; cases h; rfl

instance [DecidableEq K] [DecidableEq V] : DecidableEq (FinMap K V) := fun m m' =>
  decidable_of_iff (m.entries = m'.entries) ⟨ext, fun h => by rw [h]⟩

/-- The map without entries. -/
def empty : FinMap K V := ⟨[], List.nodup_nil⟩

instance : Inhabited (FinMap K V) := ⟨empty⟩

def keys (m : FinMap K V) : List K := m.entries.map Prod.fst

def size (m : FinMap K V) : Nat := m.entries.length

theorem keys_nodup (m : FinMap K V) : m.keys.Nodup := m.nodup

theorem length_keys (m : FinMap K V) : m.keys.length = m.size := by simp [keys, size]

/-! ## Look-up -/

section Lookup

variable [DecidableEq K]

/-- Look-up in a list of entries: the first entry with the key. -/
def lookupEntry (k : K) : List (K × V) → Option V
  | [] => none
  | e :: es => if e.1 = k then some e.2 else lookupEntry k es

def get? (m : FinMap K V) (k : K) : Option V := lookupEntry k m.entries

def contains (m : FinMap K V) (k : K) : Bool := (m.get? k).isSome

theorem lookupEntry_isSome {k : K} : ∀ {es : List (K × V)},
    (lookupEntry k es).isSome ↔ k ∈ es.map Prod.fst
  | [] => by simp [lookupEntry]
  | e :: es => by
    by_cases h : e.1 = k
    · simp [lookupEntry, h]
    · simp [lookupEntry, h, @lookupEntry_isSome k es, Ne.symm h]

theorem lookupEntry_eq_some {k : K} {v : V} : ∀ {es : List (K × V)},
    (es.map Prod.fst).Nodup → (lookupEntry k es = some v ↔ (k, v) ∈ es)
  | [], _ => by simp [lookupEntry]
  | e :: es, hn => by
    obtain ⟨k', v'⟩ := e
    simp only [List.map_cons, List.nodup_cons] at hn
    by_cases h : k' = k
    · subst h
      simp only [lookupEntry, if_true, Option.some.injEq, List.mem_cons, Prod.mk.injEq, true_and]
      refine ⟨fun hv => Or.inl hv.symm, fun hm => hm.elim Eq.symm fun hm => ?_⟩
      exact absurd (List.mem_map_of_mem (f := Prod.fst) hm) hn.1
    · simp [lookupEntry, h, lookupEntry_eq_some hn.2, Ne.symm h]

/-- Entries are exactly the successful look-ups. -/
theorem mem_entries {m : FinMap K V} {k : K} {v : V} :
    (k, v) ∈ m.entries ↔ m.get? k = some v :=
  (lookupEntry_eq_some m.nodup).symm

theorem mem_keys {m : FinMap K V} {k : K} : k ∈ m.keys ↔ (m.get? k).isSome :=
  lookupEntry_isSome.symm

theorem not_mem_keys {m : FinMap K V} {k : K} : k ∉ m.keys ↔ m.get? k = none := by
  rw [mem_keys, Option.not_isSome_iff_eq_none]

theorem mem_keys_of_get? {m : FinMap K V} {k : K} {v : V} (h : m.get? k = some v) :
    k ∈ m.keys := by rw [mem_keys, h]; rfl

@[simp] theorem get?_empty (k : K) : (empty : FinMap K V).get? k = none := rfl

@[simp] theorem contains_eq_isSome (m : FinMap K V) (k : K) :
    m.contains k = (m.get? k).isSome := rfl

end Lookup

/-! ## Insertion -/

section Insert

variable [DecidableEq K]

/-- Overwrite in place, or append. -/
def insertEntry (k : K) (v : V) : List (K × V) → List (K × V)
  | [] => [(k, v)]
  | e :: es => if e.1 = k then (k, v) :: es else e :: insertEntry k v es

theorem keys_insertEntry (k : K) (v : V) : ∀ es : List (K × V),
    (insertEntry k v es).map Prod.fst =
      if k ∈ es.map Prod.fst then es.map Prod.fst else es.map Prod.fst ++ [k]
  | [] => by simp [insertEntry]
  | e :: es => by
    by_cases h : e.1 = k
    · simp [insertEntry, h]
    · have hk : k ≠ e.1 := Ne.symm h
      simp only [insertEntry, h, if_false, List.map_cons, keys_insertEntry k v es,
        List.mem_cons, hk, false_or]
      split <;> simp

def insert (m : FinMap K V) (k : K) (v : V) : FinMap K V where
  entries := insertEntry k v m.entries
  nodup := by
    rw [keys_insertEntry]
    split
    · exact m.nodup
    · rename_i h
      rw [List.nodup_append]
      refine ⟨m.nodup, by simp, ?_⟩
      rintro a ha b hb rfl
      simp only [List.mem_singleton] at hb
      exact h (hb ▸ ha)

theorem keys_insert (m : FinMap K V) (k : K) (v : V) :
    (m.insert k v).keys = if k ∈ m.keys then m.keys else m.keys ++ [k] :=
  keys_insertEntry k v m.entries

theorem mem_keys_insert {m : FinMap K V} {k a : K} {v : V} :
    a ∈ (m.insert k v).keys ↔ a = k ∨ a ∈ m.keys := by
  rw [keys_insert]
  split
  · rename_i h
    exact ⟨Or.inr, fun ha => ha.elim (fun e => e ▸ h) id⟩
  · simp [or_comm]

theorem lookupEntry_insertEntry (k a : K) (v : V) : ∀ es : List (K × V),
    lookupEntry a (insertEntry k v es) = if k = a then some v else lookupEntry a es
  | [] => by simp [insertEntry, lookupEntry]
  | e :: es => by
    by_cases h : e.1 = k
    · by_cases ha : k = a
      · simp [insertEntry, h, lookupEntry, ha]
      · have : e.1 ≠ a := fun he => ha (h.symm.trans he)
        simp [insertEntry, h, lookupEntry, ha]
    · by_cases ha : k = a
      · subst ha
        simp [insertEntry, h, lookupEntry, lookupEntry_insertEntry k k v es]
      · simp [insertEntry, h, lookupEntry, lookupEntry_insertEntry k a v es, ha]

@[simp] theorem get?_insert (m : FinMap K V) (k a : K) (v : V) :
    (m.insert k v).get? a = if k = a then some v else m.get? a :=
  lookupEntry_insertEntry k a v m.entries

theorem get?_insert_self (m : FinMap K V) (k : K) (v : V) : (m.insert k v).get? k = some v := by
  simp

theorem get?_insert_ne (m : FinMap K V) {k a : K} (v : V) (h : k ≠ a) :
    (m.insert k v).get? a = m.get? a := by
  simp [h]

theorem insertEntry_insertEntry (k : K) (v w : V) : ∀ es : List (K × V),
    insertEntry k w (insertEntry k v es) = insertEntry k w es
  | [] => by simp [insertEntry]
  | e :: es => by
    by_cases h : e.1 = k
    · simp [insertEntry, h]
    · simp [insertEntry, h, insertEntry_insertEntry k v w es]

/-- The last write of a key counts. -/
theorem insert_insert (m : FinMap K V) (k : K) (v w : V) :
    (m.insert k v).insert k w = m.insert k w :=
  FinMap.ext (insertEntry_insertEntry k v w m.entries)

theorem size_insert_of_none {m : FinMap K V} {k : K} {v : V} (h : m.get? k = none) :
    (m.insert k v).size = m.size + 1 := by
  rw [← length_keys, ← length_keys, keys_insert, if_neg (not_mem_keys.2 h)]
  simp

theorem size_insert_of_some {m : FinMap K V} {k : K} {v v' : V} (h : m.get? k = some v') :
    (m.insert k v).size = m.size := by
  rw [← length_keys, ← length_keys, keys_insert, if_pos (mem_keys_of_get? h)]

theorem size_le_size_insert (m : FinMap K V) (k : K) (v : V) :
    m.size ≤ (m.insert k v).size := by
  cases h : m.get? k with
  | none => rw [size_insert_of_none h]; exact Nat.le_succ _
  | some v' => exact Nat.le_of_eq (size_insert_of_some h).symm

end Insert

/-! ## Erasing and filtering -/

section Filter

/-- Keep the entries that satisfy `p`. -/
def filter (m : FinMap K V) (p : K → V → Bool) : FinMap K V where
  entries := m.entries.filter fun e => p e.1 e.2
  nodup := m.nodup.sublist (List.filter_sublist.map _)

theorem size_filter_le (m : FinMap K V) (p : K → V → Bool) : (m.filter p).size ≤ m.size :=
  List.length_filter_le ..

variable [DecidableEq K]

theorem get?_filter_eq_some {m : FinMap K V} {p : K → V → Bool} {k : K} {v : V} :
    (m.filter p).get? k = some v ↔ m.get? k = some v ∧ p k v = true := by
  rw [← mem_entries, ← mem_entries]
  simp [filter]

theorem get?_filter (m : FinMap K V) (p : K → V → Bool) (k : K) :
    (m.filter p).get? k = (m.get? k).filter (p k) := by
  refine Option.ext fun v => ?_
  rw [get?_filter_eq_some, Option.filter_eq_some_iff]

def erase (m : FinMap K V) (k : K) : FinMap K V := m.filter fun a _ => decide (a ≠ k)

@[simp] theorem get?_erase (m : FinMap K V) (k a : K) :
    (m.erase k).get? a = if k = a then none else m.get? a := by
  rw [erase, get?_filter]
  by_cases h : k = a
  · subst h
    cases m.get? k <;> simp
  · cases m.get? a <;> simp [h, Ne.symm h]

theorem keys_erase (m : FinMap K V) (k : K) :
    (m.erase k).keys = m.keys.filter fun a => decide (a ≠ k) := by
  simp only [erase, filter, keys, List.filter_map]
  rfl

theorem mem_keys_erase {m : FinMap K V} {k a : K} :
    a ∈ (m.erase k).keys ↔ a ∈ m.keys ∧ a ≠ k := by
  rw [keys_erase]; simp

theorem size_erase_of_some {m : FinMap K V} {k : K} {v : V} (h : m.get? k = some v) :
    (m.erase k).size + 1 = m.size := by
  have hk := mem_keys_of_get? h
  rw [← length_keys, ← length_keys, keys_erase]
  have := (m.keys_nodup).erase_eq_filter k
  have hlen := List.length_erase_of_mem hk
  rw [this] at hlen
  have hpos := List.length_pos_of_mem hk
  have hcongr : (m.keys.filter fun a => decide (a ≠ k)) = m.keys.filter (fun x => x != k) := by
    refine List.filter_congr fun a _ => ?_
    by_cases hak : a = k <;> simp [hak]
  rw [hcongr, hlen]
  omega

theorem size_erase_le (m : FinMap K V) (k : K) : (m.erase k).size ≤ m.size :=
  size_filter_le ..

end Filter

/-! ## Mapping the values and reordering -/

section Map

/-- Rewrite every value. -/
def mapVals (m : FinMap K V) (f : V → W) : FinMap K W where
  entries := m.entries.map fun e => (e.1, f e.2)
  nodup := by
    rw [List.map_map]
    exact m.nodup

theorem keys_mapVals (m : FinMap K V) (f : V → W) : (m.mapVals f).keys = m.keys := by
  simp [mapVals, keys, Function.comp_def]

variable [DecidableEq K]

theorem lookupEntry_map (f : V → W) (k : K) : ∀ es : List (K × V),
    lookupEntry k (es.map fun e => (e.1, f e.2)) = (lookupEntry k es).map f
  | [] => rfl
  | e :: es => by
    by_cases h : e.1 = k
    · simp [lookupEntry, h]
    · simp [lookupEntry, h, lookupEntry_map f k es]

@[simp] theorem get?_mapVals (m : FinMap K V) (f : V → W) (k : K) :
    (m.mapVals f).get? k = (m.get? k).map f :=
  lookupEntry_map f k m.entries

/-- Move the entry of a present key to the end of the order. -/
def moveToEnd (m : FinMap K V) (k : K) : FinMap K V :=
  match m.get? k with
  | none => m
  | some v => (m.erase k).insert k v

@[simp] theorem get?_moveToEnd (m : FinMap K V) (k a : K) :
    (m.moveToEnd k).get? a = m.get? a := by
  unfold moveToEnd
  split
  · rfl
  · rename_i v h
    by_cases ha : k = a
    · subst ha; simp [h]
    · simp [ha]

theorem size_moveToEnd (m : FinMap K V) (k : K) : (m.moveToEnd k).size = m.size := by
  unfold moveToEnd
  split
  · rfl
  · rename_i v h
    rw [size_insert_of_none (by simp), size_erase_of_some h]

/-- Build a map by inserting entries from left to right. -/
def ofList (es : List (K × V)) : FinMap K V := es.foldl (fun m e => m.insert e.1 e.2) empty

theorem isSome_get?_foldl_insert (k : K) : ∀ (es : List (K × V)) (m : FinMap K V),
    ((es.foldl (fun m e => m.insert e.1 e.2) m).get? k).isSome ↔
      (m.get? k).isSome ∨ k ∈ es.map Prod.fst
  | [], m => by simp
  | e :: es, m => by
    rw [List.foldl_cons, isSome_get?_foldl_insert k es]
    by_cases h : e.1 = k
    · simp [h]
    · simp [h, Ne.symm h]

theorem isSome_get?_ofList {k : K} {es : List (K × V)} :
    ((ofList es).get? k).isSome ↔ k ∈ es.map Prod.fst := by
  unfold ofList
  rw [isSome_get?_foldl_insert]
  simp

theorem get?_foldl_insert_all {P : V → Prop} {k : K} {v : V} : ∀ {es : List (K × V)}
    {m : FinMap K V}, (∀ v, m.get? k = some v → P v) → (∀ e ∈ es, P e.2) →
      (es.foldl (fun m e => m.insert e.1 e.2) m).get? k = some v → P v
  | [], _, hm, _, h => hm v h
  | e :: es, m, hm, he, h => by
    refine get?_foldl_insert_all (fun v hv => ?_) (fun e' h' => he e' (List.mem_cons_of_mem _ h')) h
    rw [get?_insert] at hv
    split at hv
    · cases hv
      exact he e List.mem_cons_self
    · exact hm v hv

theorem get?_foldl_insert_of_not_mem {k : K} : ∀ {es : List (K × V)} {m : FinMap K V},
    k ∉ es.map Prod.fst → (es.foldl (fun m e => m.insert e.1 e.2) m).get? k = m.get? k
  | [], _, _ => rfl
  | e :: es, m, h => by
    rw [List.map_cons, List.mem_cons, not_or] at h
    rw [List.foldl_cons, get?_foldl_insert_of_not_mem h.2, get?_insert_ne _ _ (Ne.symm h.1)]

/-- Entries with distinct keys are all found after they are inserted. -/
theorem get?_foldl_insert_of_mem {e : K × V} : ∀ {es : List (K × V)} {m : FinMap K V},
    (es.map Prod.fst).Nodup → e ∈ es →
      (es.foldl (fun m e => m.insert e.1 e.2) m).get? e.1 = some e.2
  | [], _, _, h => by cases h
  | e' :: es, m, hnodup, h => by
    rw [List.map_cons, List.nodup_cons] at hnodup
    rw [List.foldl_cons]
    rcases List.mem_cons.1 h with rfl | h
    · rw [get?_foldl_insert_of_not_mem hnodup.1, get?_insert_self]
    · exact get?_foldl_insert_of_mem hnodup.2 h

/-- What holds of every inserted value holds of every value of the map. -/
theorem get?_ofList_all {P : V → Prop} {k : K} {v : V} {es : List (K × V)}
    (he : ∀ e ∈ es, P e.2) (h : (ofList es).get? k = some v) : P v :=
  get?_foldl_insert_all (fun _ hv => by cases hv) he h

end Map

/-! ## Counting entries -/

section Count

/-- How many entries satisfy `p`. -/
def count (m : FinMap K V) (p : K → V → Bool) : Nat := m.entries.countP fun e => p e.1 e.2

@[simp] theorem count_empty (p : K → V → Bool) : (empty : FinMap K V).count p = 0 := rfl

variable [DecidableEq K]

theorem count_pos_iff {m : FinMap K V} {p : K → V → Bool} :
    0 < m.count p ↔ ∃ k v, m.get? k = some v ∧ p k v = true := by
  rw [count, List.countP_pos_iff]
  constructor
  · rintro ⟨⟨k, v⟩, hm, hp⟩
    exact ⟨k, v, mem_entries.1 hm, hp⟩
  · rintro ⟨k, v, hg, hp⟩
    exact ⟨(k, v), mem_entries.2 hg, hp⟩

theorem insertEntry_of_not_mem {k : K} {v : V} : ∀ {es : List (K × V)},
    k ∉ es.map Prod.fst → insertEntry k v es = es ++ [(k, v)]
  | [], _ => rfl
  | e :: es, h => by
    simp only [List.map_cons, List.mem_cons, not_or] at h
    simp [insertEntry, Ne.symm h.1, insertEntry_of_not_mem h.2]

theorem count_insert_of_none {m : FinMap K V} {p : K → V → Bool} {k : K} {v : V}
    (h : m.get? k = none) : (m.insert k v).count p = m.count p + if p k v then 1 else 0 := by
  rw [count, show (m.insert k v).entries = m.entries ++ [(k, v)] from
    insertEntry_of_not_mem (not_mem_keys.2 h), List.countP_append, count]
  simp [List.countP_cons]

theorem insertEntry_of_mem {k : K} {v : V} : ∀ {es : List (K × V)},
    lookupEntry k es = some v → insertEntry k v es = es
  | [], h => by simp [lookupEntry] at h
  | e :: es, h => by
    by_cases he : e.1 = k
    · simp only [lookupEntry, he, if_true, Option.some.injEq] at h
      subst he; subst h
      simp [insertEntry]
    · simp only [lookupEntry, he, if_false] at h
      simp [insertEntry, he, insertEntry_of_mem h]

theorem insertEntry_eq_map {k : K} {w : V} : ∀ {es : List (K × V)},
    (es.map Prod.fst).Nodup → k ∈ es.map Prod.fst →
      insertEntry k w es = es.map fun e => if e.1 = k then (k, w) else e
  | [], _, hm => by cases hm
  | e :: es, hn, hm => by
    simp only [List.map_cons, List.nodup_cons] at hn
    by_cases he : e.1 = k
    · have hrest : es.map (fun e => if e.1 = k then (k, w) else e) = es := by
        refine (List.map_congr_left fun a ha => if_neg ?_).trans es.map_id
        rintro rfl
        exact hn.1 (he ▸ List.mem_map_of_mem ha)
      simp [insertEntry, he, hrest]
    · have hm' : k ∈ es.map Prod.fst := by
        rcases List.mem_cons.1 hm with h | h
        · exact absurd h.symm he
        · exact h
      simp [insertEntry, he, insertEntry_eq_map hn.2 hm']

/-- Overwriting one value is rewriting the values of the entries with its key. -/
theorem entries_insert_of_some {m : FinMap K V} {k : K} {v w : V} (h : m.get? k = some v) :
    (m.insert k w).entries = m.entries.map fun e => if e.1 = k then (k, w) else e :=
  insertEntry_eq_map m.nodup (mem_keys_of_get? h)

theorem entries_insert_of_none {m : FinMap K V} {k : K} {v : V} (h : m.get? k = none) :
    (m.insert k v).entries = m.entries ++ [(k, v)] :=
  insertEntry_of_not_mem (not_mem_keys.2 h)

/-- Writing the value a key already has changes nothing. -/
theorem insert_of_some {m : FinMap K V} {k : K} {v : V} (h : m.get? k = some v) :
    m.insert k v = m := ext (insertEntry_of_mem h)

theorem countP_insertEntry {k : K} {v w : V} {p : K → V → Bool} : ∀ {es : List (K × V)},
    lookupEntry k es = some v →
      (insertEntry k w es).countP (fun e => p e.1 e.2) + (if p k v then 1 else 0) =
        es.countP (fun e => p e.1 e.2) + if p k w then 1 else 0
  | [], h => by cases h
  | e :: es, h => by
    obtain ⟨k', v'⟩ := e
    by_cases hk : k' = k
    · subst hk
      simp only [lookupEntry, if_true, Option.some.injEq] at h
      subst h
      simp only [insertEntry, if_true, List.countP_cons]
      omega
    · simp only [lookupEntry, hk, if_false] at h
      have ih := countP_insertEntry (p := p) (w := w) h
      simp only [insertEntry, hk, if_false, List.countP_cons]
      omega

/-- Overwriting a value moves its entry between the counted ones and the others. -/
theorem count_insert_of_some {m : FinMap K V} {p : K → V → Bool} {k : K} {v w : V}
    (h : m.get? k = some v) :
    (m.insert k w).count p + (if p k v then 1 else 0) = m.count p + if p k w then 1 else 0 :=
  countP_insertEntry h

theorem countP_filter_ne {k : K} {v : V} {p : K → V → Bool} : ∀ {es : List (K × V)},
    (es.map Prod.fst).Nodup → (k, v) ∈ es →
      (es.filter fun e => decide (e.1 ≠ k)).countP (fun e => p e.1 e.2) + (if p k v then 1 else 0) =
        es.countP fun e => p e.1 e.2
  | [], _, hm => by cases hm
  | e :: es, hn, hm => by
    obtain ⟨k', v'⟩ := e
    simp only [List.map_cons, List.nodup_cons] at hn
    by_cases h : k' = k
    · subst h
      have hv : v = v' := by
        rcases List.mem_cons.1 hm with h1 | h1
        · cases h1; rfl
        · exact absurd (List.mem_map_of_mem (f := Prod.fst) h1) hn.1
      subst hv
      have hall : es.filter (fun e => decide (e.1 ≠ k')) = es := by
        refine List.filter_eq_self.2 fun e he => ?_
        have : e.1 ≠ k' := fun hek => hn.1 (hek ▸ List.mem_map_of_mem (f := Prod.fst) he)
        simpa using this
      rw [List.filter_cons_of_neg (by simp), hall, List.countP_cons]
    · have hm' : (k, v) ∈ es := by
        rcases List.mem_cons.1 hm with h1 | h1
        · cases h1; exact absurd rfl h
        · exact h1
      have ih := countP_filter_ne (p := p) hn.2 hm'
      simp only [List.filter_cons, ne_eq, h, not_false_eq_true, decide_true, if_true,
        List.countP_cons] at ih ⊢
      omega

theorem count_erase_of_some {m : FinMap K V} {p : K → V → Bool} {k : K} {v : V}
    (h : m.get? k = some v) : (m.erase k).count p + (if p k v then 1 else 0) = m.count p :=
  countP_filter_ne m.nodup (mem_entries.2 h)

/-- One insertion adds at most its own entry to the counted ones. -/
theorem count_insert_le (m : FinMap K V) (p : K → V → Bool) (k : K) (v : V) :
    (m.insert k v).count p ≤ m.count p + if p k v then 1 else 0 := by
  cases h : m.get? k with
  | none => exact Nat.le_of_eq (count_insert_of_none h)
  | some old =>
    have hcount := count_insert_of_some (p := p) (w := v) h
    omega

theorem count_moveToEnd (m : FinMap K V) (p : K → V → Bool) (k : K) :
    (m.moveToEnd k).count p = m.count p := by
  unfold moveToEnd
  split
  · rfl
  · rename_i v h
    rw [count_insert_of_none (by simp), count_erase_of_some h]

end Count

/-! ## Related maps -/

section Related

variable {R : V → W → Prop}

/-- The same keys in the same order, with related values. -/
def Related (R : V → W → Prop) (m : FinMap K V) (m' : FinMap K W) : Prop :=
  List.Forall₂ (fun e e' => e.1 = e'.1 ∧ R e.2 e'.2) m.entries m'.entries

theorem related_empty (R : V → W → Prop) : Related R (empty : FinMap K V) empty := .nil

variable [DecidableEq K]

theorem lookupEntry_related {k : K} {es : List (K × V)} {es' : List (K × W)}
    (h : List.Forall₂ (fun e e' => e.1 = e'.1 ∧ R e.2 e'.2) es es') :
    Option.Rel R (lookupEntry k es) (lookupEntry k es') := by
  induction h with
  | nil => exact .none
  | @cons e e' es es' he _ ih =>
    obtain ⟨hkey, hvalue⟩ := he
    rw [lookupEntry, lookupEntry, ← hkey]
    split
    · exact .some hvalue
    · exact ih

theorem Related.get? {m : FinMap K V} {m' : FinMap K W} (h : Related R m m') (k : K) :
    Option.Rel R (m.get? k) (m'.get? k) := lookupEntry_related h

theorem insertEntry_related {k : K} {v : V} {w : W} (hvw : R v w) {es : List (K × V)}
    {es' : List (K × W)} (h : List.Forall₂ (fun e e' => e.1 = e'.1 ∧ R e.2 e'.2) es es') :
    List.Forall₂ (fun e e' => e.1 = e'.1 ∧ R e.2 e'.2) (insertEntry k v es)
      (insertEntry k w es') := by
  induction h with
  | nil => exact .cons ⟨rfl, hvw⟩ .nil
  | @cons e e' es es' he hes ih =>
    rw [insertEntry, insertEntry, ← he.1]
    split
    · exact .cons ⟨rfl, hvw⟩ hes
    · exact .cons he ih

theorem Related.insert {m : FinMap K V} {m' : FinMap K W} (h : Related R m m') (k : K) {v : V}
    {w : W} (hvw : R v w) : Related R (m.insert k v) (m'.insert k w) := insertEntry_related hvw h

end Related

end FinMap
