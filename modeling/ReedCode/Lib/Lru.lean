import ReedCode.Lib.FinMap

/-!
# A bounded cache with protected keys

A cache is a finite map in the order of use.  To admit a list of keys, the oldest keys that are
not among them are deleted until the keys that are not cached fit; then every key of the list
becomes the newest one.

* `makeRoom_isSome` — a victim is found as long as the list fits by itself;
* `load_eq_some` — the size, the victims and the look-ups after an admission;
* `count_load_le` — counting through an admission.
-/

set_option autoImplicit false

universe u v

namespace Lru

variable {K : Type u} {V : Type v} [DecidableEq K]

/-- How many of the keys are not cached. -/
def missing (cache : FinMap K V) (keys : List K) : Nat :=
  keys.countP fun key => !cache.contains key

/-- The oldest key that is not protected. -/
def victim? (keys : List K) (cache : FinMap K V) : Option K :=
  cache.keys.find? fun key => decide (key ∉ keys)

/-- Delete victims until `new` keys fit; `none` where no victim is left.  The victims are
returned in order. -/
def makeRoom (capacity new : Nat) (keys : List K) :
    Nat → FinMap K V → Option (List K × FinMap K V)
  | fuel, cache =>
    if cache.size + new ≤ capacity then some ([], cache)
    else
      match fuel, victim? keys cache with
      | fuel + 1, some victim =>
        (makeRoom capacity new keys fuel (cache.erase victim)).map fun r => (victim :: r.1, r.2)
      | _, _ => none

/-- Add a key that is not cached, and make it the newest. -/
def touch (v : V) (cache : FinMap K V) (key : K) : FinMap K V :=
  (if cache.contains key then cache else cache.insert key v).moveToEnd key

def touchAll (v : V) (keys : List K) (cache : FinMap K V) : FinMap K V :=
  keys.foldl (touch v) cache

def load (capacity : Nat) (v : V) (keys : List K) (cache : FinMap K V) :
    Option (List K × FinMap K V) :=
  (makeRoom capacity (missing cache keys) keys cache.size cache).map fun r =>
    (r.1, touchAll v keys r.2)

/-! ## Making room -/

theorem victim?_eq_some {keys : List K} {cache : FinMap K V} {victim : K}
    (h : victim? keys cache = some victim) : victim ∉ keys ∧ ∃ v, cache.get? victim = some v := by
  have hnot := List.find?_some h
  exact ⟨of_decide_eq_true hnot,
    Option.isSome_iff_exists.1 (FinMap.mem_keys.1 (List.mem_of_find?_eq_some h))⟩

theorem missing_congr {cache cache' : FinMap K V} {keys : List K}
    (h : ∀ key ∈ keys, cache'.get? key = cache.get? key) : missing cache' keys = missing cache keys :=
  List.countP_congr fun key hkey => by rw [FinMap.contains, FinMap.contains, h key hkey]

/-- Where only protected keys are cached, the cache and the missing keys are no more than the
protected ones. -/
theorem size_add_missing_le {cache : FinMap K V} {keys : List K}
    (h : ∀ key ∈ cache.keys, key ∈ keys) : cache.size + missing cache keys ≤ keys.length := by
  have hsub : cache.keys ⊆ keys.filter fun key => cache.contains key := fun key hkey =>
    List.mem_filter.2 ⟨h key hkey, FinMap.mem_keys.1 hkey⟩
  have hle := (List.subperm_of_subset cache.keys_nodup hsub).length_le
  have hcount := List.length_eq_countP_add_countP (fun key => cache.contains key) (l := keys)
  rw [FinMap.length_keys, ← List.countP_eq_length_filter] at hle
  have hmissing : missing cache keys = keys.countP fun key => decide ¬cache.contains key = true := by
    unfold missing
    refine List.countP_congr fun key _ => ?_
    cases cache.contains key <;> simp
  omega

/-- **A victim is always found** when the protected keys fit by themselves. -/
theorem makeRoom_isSome {capacity : Nat} {keys : List K} (hfit : keys.length ≤ capacity) :
    ∀ {fuel : Nat} {cache : FinMap K V} {new : Nat}, new = missing cache keys →
      cache.size ≤ fuel → (makeRoom capacity new keys fuel cache).isSome
  | fuel, cache, new, hnew, hfuel => by
    unfold makeRoom
    split
    · rfl
    · rename_i hfull
      cases hvictim : victim? keys cache with
      | none =>
        have hall : ∀ key ∈ cache.keys, key ∈ keys := fun key hkey => by
          have := List.find?_eq_none.1 hvictim key hkey
          simpa using this
        have hle := size_add_missing_le hall
        omega
      | some victim =>
        obtain ⟨hnot, v, hv⟩ := victim?_eq_some hvictim
        have hsize := FinMap.size_erase_of_some hv
        cases fuel with
        | zero => omega
        | succ fuel =>
          rw [Option.isSome_map]
          refine makeRoom_isSome hfit (hnew.trans (missing_congr fun key hkey => ?_).symm) (by omega)
          rw [FinMap.get?_erase, if_neg fun heq : victim = key => hnot (heq ▸ hkey)]

theorem makeRoom_eq_some {capacity new : Nat} {keys : List K} :
    ∀ {fuel : Nat} {cache cache' : FinMap K V} {victims : List K},
      makeRoom capacity new keys fuel cache = some (victims, cache') →
        cache'.size + new ≤ capacity ∧ (∀ victim ∈ victims, victim ∉ keys) ∧
          ∀ key, cache'.get? key = if key ∈ victims then none else cache.get? key
  | fuel, cache, cache', victims, h => by
    unfold makeRoom at h
    split at h
    · rename_i hroom
      cases h
      exact ⟨hroom, nofun, fun key => (if_neg List.not_mem_nil).symm⟩
    · cases hvictim : victim? keys cache with
      | none =>
        rw [hvictim] at h
        cases fuel <;> cases h
      | some victim =>
        rw [hvictim] at h
        cases fuel with
        | zero => cases h
        | succ fuel =>
          obtain ⟨⟨victims, cache₁⟩, hrest, heq⟩ := Option.map_eq_some_iff.1 h
          cases heq
          obtain ⟨hroom, hnot, hget⟩ := makeRoom_eq_some hrest
          refine ⟨hroom, List.forall_mem_cons.2 ⟨(victim?_eq_some hvictim).1, hnot⟩, fun key => ?_⟩
          rw [hget, FinMap.get?_erase]
          by_cases hkey : key = victim
          · simp [hkey]
          · simp [hkey, Ne.symm hkey]

/-! ## Touching -/

theorem get?_touch (v : V) (cache : FinMap K V) (key a : K) :
    (touch v cache key).get? a = if key = a then some ((cache.get? a).getD v) else cache.get? a := by
  unfold touch
  rw [FinMap.get?_moveToEnd]
  by_cases hkey : key = a
  · subst hkey
    rw [if_pos rfl, FinMap.contains]
    cases h : cache.get? key <;> simp [h]
  · rw [if_neg hkey]
    split
    · rfl
    · rw [FinMap.get?_insert, if_neg hkey]

theorem get?_touchAll (v : V) (a : K) : ∀ (keys : List K) (cache : FinMap K V),
    (touchAll v keys cache).get? a =
      if a ∈ keys then some ((cache.get? a).getD v) else cache.get? a
  | [], cache => (if_neg List.not_mem_nil).symm
  | key :: keys, cache => by
    have ih := get?_touchAll v a keys (touch v cache key)
    rw [get?_touch] at ih
    rw [touchAll, List.foldl_cons, ← touchAll, ih]
    by_cases hkey : key = a
    · simp [hkey]
    · simp [hkey, Ne.symm hkey]

theorem size_touch (v : V) (cache : FinMap K V) (key : K) :
    (touch v cache key).size = cache.size + if cache.contains key then 0 else 1 := by
  unfold touch
  rw [FinMap.size_moveToEnd]
  cases h : cache.get? key with
  | none => simp [h, FinMap.size_insert_of_none]
  | some w => simp [h]

theorem size_touchAll (v : V) : ∀ {keys : List K} {cache : FinMap K V}, keys.Nodup →
    (touchAll v keys cache).size = cache.size + missing cache keys
  | [], _, _ => rfl
  | key :: keys, cache, hn => by
    obtain ⟨hnot, hn⟩ := List.nodup_cons.1 hn
    have hmissing : missing (touch v cache key) keys = missing cache keys :=
      missing_congr fun a ha => by rw [get?_touch, if_neg fun heq : key = a => hnot (heq ▸ ha)]
    have ih : (touchAll v keys (touch v cache key)).size =
        (touch v cache key).size + missing (touch v cache key) keys := size_touchAll v hn
    rw [touchAll, List.foldl_cons, ← touchAll, ih, size_touch, hmissing]
    unfold missing
    rw [List.countP_cons]
    cases cache.contains key
    · simp
      omega
    · simp

/-! ## Admission -/

theorem load_isSome {capacity : Nat} {keys : List K} (v : V) (cache : FinMap K V)
    (hfit : keys.length ≤ capacity) : (load capacity v keys cache).isSome := by
  rw [load, Option.isSome_map]
  exact makeRoom_isSome hfit rfl (Nat.le_refl _)

/-- **An admission** keeps the bound, deletes none of the admitted keys and leaves the value of
every other key that is kept. -/
theorem load_eq_some {capacity : Nat} {v : V} {keys victims : List K}
    {cache cache' : FinMap K V} (hn : keys.Nodup)
    (h : load capacity v keys cache = some (victims, cache')) :
    cache'.size ≤ capacity ∧ (∀ victim ∈ victims, victim ∉ keys) ∧
      ∀ key, cache'.get? key =
        if key ∈ keys then some ((cache.get? key).getD v)
        else if key ∈ victims then none else cache.get? key := by
  obtain ⟨⟨victims', cache₁⟩, hroom, heq⟩ := Option.map_eq_some_iff.1 h
  cases heq
  obtain ⟨hsize, hnot, hget⟩ := makeRoom_eq_some hroom
  have hkept : ∀ key ∈ keys, cache₁.get? key = cache.get? key := fun key hkey => by
    rw [hget, if_neg fun hvictim => hnot key hvictim hkey]
  refine ⟨?_, hnot, fun key => ?_⟩
  · rw [size_touchAll v hn, missing_congr hkept]
    exact hsize
  · by_cases hkey : key ∈ keys
    · rw [get?_touchAll, hkept key hkey, if_pos hkey, if_pos hkey]
    · rw [get?_touchAll, hget, if_neg hkey, if_neg hkey]

/-! ## Counting -/

theorem count_makeRoom_le {capacity new : Nat} {keys : List K} {p : K → V → Bool} :
    ∀ {fuel : Nat} {cache cache' : FinMap K V} {victims : List K},
      makeRoom capacity new keys fuel cache = some (victims, cache') → cache'.count p ≤ cache.count p
  | fuel, cache, cache', victims, h => by
    unfold makeRoom at h
    split at h
    · cases h
      exact Nat.le_refl _
    · cases hvictim : victim? keys cache with
      | none =>
        rw [hvictim] at h
        cases fuel <;> cases h
      | some victim =>
        rw [hvictim] at h
        cases fuel with
        | zero => cases h
        | succ fuel =>
          obtain ⟨⟨victims, cache₁⟩, hrest, heq⟩ := Option.map_eq_some_iff.1 h
          cases heq
          obtain ⟨-, v, hv⟩ := victim?_eq_some hvictim
          have herase := FinMap.count_erase_of_some (p := p) hv
          have hle := count_makeRoom_le (p := p) hrest
          show cache₁.count p ≤ cache.count p
          omega

theorem count_touchAll_le {p : K → V → Bool} {v : V} (hv : ∀ key, p key v = false) :
    ∀ (keys : List K) (cache : FinMap K V), (touchAll v keys cache).count p ≤ cache.count p
  | [], _ => Nat.le_refl _
  | key :: keys, cache => by
    have htouch : (touch v cache key).count p ≤ cache.count p := by
      unfold touch
      rw [FinMap.count_moveToEnd]
      split
      · exact Nat.le_refl _
      · have hle := FinMap.count_insert_le cache p key v
        rwa [hv key] at hle
    exact Nat.le_trans (count_touchAll_le hv keys (touch v cache key)) htouch

/-- Loading adds nothing to a count that leaves out the loaded value. -/
theorem count_load_le {capacity : Nat} {p : K → V → Bool} {v : V} (hv : ∀ key, p key v = false)
    {keys victims : List K} {cache cache' : FinMap K V}
    (h : load capacity v keys cache = some (victims, cache')) : cache'.count p ≤ cache.count p := by
  obtain ⟨⟨victims', cache₁⟩, hroom, heq⟩ := Option.map_eq_some_iff.1 h
  cases heq
  exact Nat.le_trans (count_touchAll_le hv keys cache₁) (count_makeRoom_le hroom)

end Lru
