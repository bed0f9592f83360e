import ReedCode.Headroom.Simulation

/-!
# What the cache holds

The invariant of the cache against its history and the jobs that run.

* `Retained` — a job that computes the key has finished, and the key was not evicted since.
* `CacheSound.credited` — every block `cachedPrefix` counts is retained.
* `CacheSound.load`, `CacheSound.complete`, `CacheSound.remark` — the three ways in which the
  cache changes: a job is admitted, a job finishes, cached blocks of a prompt are used.
-/

set_option autoImplicit false

universe u

namespace ReedCode.Headroom

variable {T : Type u} {κ : Type u}

/-! ## History -/

/-- A finished job computed the block, and it was not evicted since.  The history has the latest
event in front. -/
def Retained (key : κ) (history : List (CacheEvent T κ)) : Prop :=
  ∃ later job earlier, history = later ++ .finished job :: earlier ∧ key ∈ job.computed ∧
    ∀ admitted, .evicted key admitted ∉ later

theorem Retained.of_computed {key : κ} {job : Job T κ} (h : key ∈ job.computed)
    (history : List (CacheEvent T κ)) : Retained key (.finished job :: history) :=
  ⟨[], job, history, rfl, h, fun _ => List.not_mem_nil⟩

theorem Retained.append {key : κ} {history events : List (CacheEvent T κ)}
    (h : Retained key history) (hevents : ∀ admitted, .evicted key admitted ∉ events) :
    Retained key (events ++ history) := by
  obtain ⟨later, job, earlier, rfl, hkey, hlater⟩ := h
  refine ⟨events ++ later, job, earlier, (List.append_assoc ..).symm, hkey, fun admitted hmem => ?_⟩
  exact (List.mem_append.1 hmem).elim (hevents admitted) (hlater admitted)

theorem Retained.finished {key : κ} {history : List (CacheEvent T κ)} (h : Retained key history)
    (job : Job T κ) : Retained key (.finished job :: history) :=
  have hevents : ∀ admitted, .evicted key admitted ∉ [CacheEvent.finished job] :=
    fun admitted hmem => by
      rw [List.mem_singleton] at hmem
      cases hmem
  h.append hevents

/-- What is computed is in the cache until the job finishes. -/
theorem Job.mem_keys_of_computed {job : Job T κ} {key : κ} (h : key ∈ job.computed) :
    key ∈ job.keys := by
  cases job with
  | demand workflow index keys ready cached => exact List.mem_of_mem_drop h
  | speculative workflow revision computed => exact h

variable [DecidableEq κ]

/-! ## The cached prefix -/

theorem cachedPrefix_le (cache : FinMap κ Mark) : ∀ keys : List κ,
    cachedPrefix cache keys ≤ keys.length
  | [] => Nat.le_refl 0
  | key :: keys => by
    unfold cachedPrefix
    split
    · exact Nat.zero_le _
    · exact Nat.zero_le _
    · exact Nat.succ_le_succ (cachedPrefix_le cache keys)

/-- The counted keys are cached, and none is pending. -/
theorem cached_of_mem_take {cache : FinMap κ Mark} {key : κ} : ∀ {keys : List κ},
    key ∈ keys.take (cachedPrefix cache keys) →
      ∃ mark, cache.get? key = some mark ∧ mark ≠ .pending
  | [], h => by cases h
  | a :: keys, h => by
    unfold cachedPrefix at h
    split at h
    · cases h
    · cases h
    · rename_i mark hmark hget
      rcases List.mem_cons.1 h with rfl | h
      · exact ⟨mark, hget, fun heq => hmark (heq ▸ rfl)⟩
      · exact cached_of_mem_take h

/-! ## Marking -/

theorem get?_markAll (mark : Mark) (a : κ) : ∀ (keys : List κ) (cache : FinMap κ Mark),
    (markAll mark keys cache).get? a = if a ∈ keys then some mark else cache.get? a
  | [], cache => (if_neg List.not_mem_nil).symm
  | key :: keys, cache => by
    have ih := get?_markAll mark a keys (cache.insert key mark)
    rw [markAll, List.foldl_cons, ← markAll, ih, FinMap.get?_insert]
    by_cases ha : a ∈ keys
    · simp [ha]
    · by_cases hkey : key = a
      · simp [hkey]
      · simp [ha, hkey, Ne.symm hkey]

/-- Marking cached keys does not make the cache larger. -/
theorem size_markAll {mark : Mark} : ∀ {keys : List κ} {cache : FinMap κ Mark},
    (∀ key ∈ keys, (cache.get? key).isSome) → (markAll mark keys cache).size = cache.size
  | [], _, _ => rfl
  | key :: keys, cache, h => by
    obtain ⟨old, hold⟩ := Option.isSome_iff_exists.1 (h key List.mem_cons_self)
    have ih : (markAll mark keys (cache.insert key mark)).size = (cache.insert key mark).size :=
      size_markAll fun a ha => by
        rw [FinMap.get?_insert]
        split
        · rfl
        · exact h a (List.mem_cons_of_mem _ ha)
    rw [markAll, List.foldl_cons, ← markAll, ih, FinMap.size_insert_of_some hold]

/-! ## The invariant -/

/-- The cache against its history and the running jobs. -/
structure CacheSound (capacity : Nat) (cache : FinMap κ Mark) (history : List (CacheEvent T κ))
    (jobs : List (Job T κ)) : Prop where
  size_le : cache.size ≤ capacity
  retained : ∀ key mark, cache.get? key = some mark → mark ≠ .pending → Retained key history
  spared : ∀ key admitted, .evicted key admitted ∈ history → key ∉ admitted
  resident : ∀ job ∈ jobs, ∀ key ∈ job.keys, (cache.get? key).isSome
  pending : ∀ key, cache.get? key = some .pending → ∃ job ∈ jobs, key ∈ job.computed

variable {capacity : Nat} {cache : FinMap κ Mark} {history : List (CacheEvent T κ)}

theorem CacheSound.empty : CacheSound capacity (.empty : FinMap κ Mark)
    ([] : List (CacheEvent T κ)) [] :=
  ⟨Nat.zero_le _, nofun, nofun, nofun, nofun⟩

/-- **Every credited block** was computed by a finished job and not evicted since. -/
theorem CacheSound.credited {jobs : List (Job T κ)} (h : CacheSound capacity cache history jobs)
    {keys : List κ} {key : κ} (hkey : key ∈ keys.take (cachedPrefix cache keys)) :
    Retained key history := by
  obtain ⟨mark, hget, hmark⟩ := cached_of_mem_take hkey
  exact h.retained key mark hget hmark

/-- Marking cached blocks that are not pending keeps the invariant. -/
theorem CacheSound.remark {jobs : List (Job T κ)} {mark : Mark} {keys : List κ}
    (h : CacheSound capacity cache history jobs) (hmark : mark ≠ .pending)
    (hkeys : ∀ key ∈ keys, ∃ m, cache.get? key = some m ∧ m ≠ .pending) :
    CacheSound capacity (markAll mark keys cache) history jobs where
  size_le := by
    rw [size_markAll fun key hkey => by obtain ⟨m, hm, -⟩ := hkeys key hkey; rw [hm]; rfl]
    exact h.size_le
  retained := by
    intro key m hget hm
    rw [get?_markAll] at hget
    split at hget
    · rename_i hkey
      obtain ⟨m', hm', hne⟩ := hkeys key hkey
      exact h.retained key m' hm' hne
    · exact h.retained key m hget hm
  spared := h.spared
  resident := by
    intro job hjob key hkey
    rw [get?_markAll]
    split
    · rfl
    · exact h.resident job hjob key hkey
  pending := by
    intro key hget
    rw [get?_markAll] at hget
    split at hget
    · exact absurd (Option.some.inj hget) hmark
    · exact h.pending key hget

/-- **A job finishes**: its blocks are marked, and no block is pending any longer. -/
theorem CacheSound.complete {job : Job T κ} {mark : Mark}
    (h : CacheSound capacity cache history [job]) (hmark : mark ≠ .pending) :
    CacheSound capacity (markAll mark job.keys cache) (.finished job :: history) [] where
  size_le := by
    rw [size_markAll (h.resident job List.mem_cons_self)]
    exact h.size_le
  retained := by
    intro key m hget hm
    rw [get?_markAll] at hget
    split at hget
    · rename_i hkey
      obtain ⟨old, hold⟩ := Option.isSome_iff_exists.1 (h.resident job List.mem_cons_self key hkey)
      by_cases hpending : old = .pending
      · obtain ⟨job', hjob, hcomputed⟩ := h.pending key (hpending ▸ hold)
        rw [List.mem_singleton.1 hjob] at hcomputed
        exact .of_computed hcomputed history
      · exact (h.retained key old hold hpending).finished job
    · exact (h.retained key m hget hm).finished job
  spared := by
    intro key admitted hmem
    rcases List.mem_cons.1 hmem with heq | hmem
    · cases heq
    · exact h.spared key admitted hmem
  resident := nofun
  pending := by
    intro key hget
    rw [get?_markAll] at hget
    split at hget
    · exact absurd (Option.some.inj hget) hmark
    · rename_i hkey
      obtain ⟨job', hjob, hcomputed⟩ := h.pending key hget
      rw [List.mem_singleton.1 hjob] at hcomputed
      exact absurd (Job.mem_keys_of_computed hcomputed) hkey

/-- **A job is admitted**: room is made for its keys, and those that were not cached are
pending. -/
theorem CacheSound.load {job : Job T κ} {keys victims : List κ} {cache' : FinMap κ Mark}
    (h : CacheSound capacity cache history []) (hn : keys.Nodup)
    (hload : Lru.load capacity .pending keys cache = some (victims, cache'))
    (hkeys : ∀ key ∈ job.keys, key ∈ keys)
    (hcached : ∀ key ∈ keys, key ∉ job.computed → (cache.get? key).isSome) :
    CacheSound capacity cache' (victims.reverse.map (.evicted · keys) ++ history) [job] := by
  obtain ⟨hsize, hvictims, hget⟩ := Lru.load_eq_some hn hload
  have hevicted : ∀ {key : κ} {admitted : List κ},
      (CacheEvent.evicted key admitted : CacheEvent T κ) ∈
        victims.reverse.map (.evicted · keys) → key ∈ victims ∧ admitted = keys := by
    intro key admitted hmem
    obtain ⟨victim, hvictim, heq⟩ := List.mem_map.1 hmem
    cases heq
    exact ⟨List.mem_reverse.1 hvictim, rfl⟩
  have hnone : ∀ key, cache.get? key ≠ some .pending := fun key hkey => by
    obtain ⟨_, hjob, -⟩ := h.pending key hkey
    cases hjob
  refine ⟨hsize, ?_, ?_, ?_, ?_⟩
  · intro key mark hmark hne
    rw [hget] at hmark
    by_cases hkey : key ∈ keys
    · rw [if_pos hkey] at hmark
      cases hold : cache.get? key with
      | none =>
        rw [hold] at hmark
        exact absurd (Option.some.inj hmark).symm hne
      | some old =>
        rw [hold] at hmark
        refine (h.retained key old hold fun heq => hnone key (heq ▸ hold)).append ?_
        exact fun admitted hmem => hvictims key (hevicted hmem).1 hkey
    · rw [if_neg hkey] at hmark
      split at hmark
      · cases hmark
      · rename_i hvictim
        exact (h.retained key mark hmark hne).append fun admitted hmem => hvictim (hevicted hmem).1
  · intro key admitted hmem
    rcases List.mem_append.1 hmem with hmem | hmem
    · obtain ⟨hvictim, rfl⟩ := hevicted hmem
      exact hvictims key hvictim
    · exact h.spared key admitted hmem
  · intro job' hjob key hkey
    rw [List.mem_singleton.1 hjob] at hkey
    rw [hget, if_pos (hkeys key hkey)]
    rfl
  · intro key hpending
    rw [hget] at hpending
    refine ⟨job, List.mem_singleton_self job, ?_⟩
    split at hpending
    · rename_i hkey
      refine Classical.byContradiction fun hcomputed => ?_
      obtain ⟨old, hold⟩ := Option.isSome_iff_exists.1 (hcached key hkey hcomputed)
      rw [hold] at hpending
      exact hnone key (hold.trans hpending)
    · split at hpending
      · cases hpending
      · exact absurd hpending (hnone key)

end ReedCode.Headroom
