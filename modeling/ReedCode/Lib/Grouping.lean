import Mathlib.Data.List.Dedup
import Mathlib.Data.List.Sort
import ReedCode.Lib.FinMap
import ReedCode.Lib.Runs

/-!
# Grouping and sorting without order

* `sortedSet` — `sorted(set(xs))`; `sortedSet_congr`: it depends on the members only.
* `groups` — a dictionary of lists, filled in order; `entries_groups` reads it as filters, and
  `keys_perm` tells what another order of the list changes.
* `eq_of_sorted` — a sorted list whose sort keys differ is determined by its members.
* `mapM_perm` — a traversal of a rearranged list.
-/

set_option autoImplicit false

universe u v

namespace Grouping

/-! ## Sorted sets -/

section SortedSet

variable {α : Type u} [LinearOrder α]

def sortedSet (xs : List α) : List α := xs.dedup.insertionSort (· ≤ ·)

theorem mem_sortedSet {xs : List α} {a : α} : a ∈ sortedSet xs ↔ a ∈ xs := by
  rw [sortedSet, (List.perm_insertionSort (· ≤ ·) xs.dedup).mem_iff, List.mem_dedup]

theorem nodup_sortedSet (xs : List α) : (sortedSet xs).Nodup :=
  (List.perm_insertionSort (· ≤ ·) xs.dedup).nodup_iff.2 xs.nodup_dedup

theorem pairwise_sortedSet (xs : List α) : (sortedSet xs).Pairwise (· ≤ ·) :=
  List.pairwise_insertionSort (· ≤ ·) _

theorem sortedSet_congr {xs ys : List α} (h : ∀ a, a ∈ xs ↔ a ∈ ys) :
    sortedSet xs = sortedSet ys := by
  have hperm : (sortedSet xs).Perm (sortedSet ys) := by
    rw [List.perm_ext_iff_of_nodup (nodup_sortedSet xs) (nodup_sortedSet ys)]
    intro a
    rw [mem_sortedSet, mem_sortedSet, h]
  exact hperm.eq_of_pairwise' (pairwise_sortedSet xs) (pairwise_sortedSet ys)

/-- Sorted lists of the same members are equal, where no two members have the same sort key. -/
theorem eq_of_sorted {β : Type v} {key : β → α} {xs ys : List β} (hperm : xs.Perm ys)
    (hnodup : (xs.map key).Nodup) (hxs : xs.Pairwise fun a b => key a ≤ key b)
    (hys : ys.Pairwise fun a b => key a ≤ key b) : xs = ys := by
  refine hperm.eq_of_pairwise (fun a b ha hb hab hba => ?_) hxs hys
  exact List.inj_on_of_nodup_map hnodup ha (hperm.mem_iff.2 hb) (le_antisymm hab hba)

end SortedSet

/-! ## Groups -/

section Groups

variable {α : Type u} {K : Type v} [DecidableEq K] (key : α → K)

/-- `groups.setdefault(key(x), []).append(x)` for every `x`. -/
def groups (xs : List α) : FinMap K (List α) :=
  xs.foldl (fun m x => m.insert (key x) ((m.get? (key x)).getD [] ++ [x])) .empty

def group (xs : List α) (k : K) : List α := xs.filter fun x => key x = k

theorem get?_foldl_groups (k : K) : ∀ (xs : List α) (m : FinMap K (List α)),
    (xs.foldl (fun m x => m.insert (key x) ((m.get? (key x)).getD [] ++ [x])) m).get? k =
      if group key xs k = [] then m.get? k else some ((m.get? k).getD [] ++ group key xs k)
  | [], m => rfl
  | x :: xs, m => by
    rw [List.foldl_cons, get?_foldl_groups k xs, FinMap.get?_insert, group, group]
    by_cases h : key x = k
    · rw [List.filter_cons_of_pos (by simpa using h), if_pos h, if_neg (List.cons_ne_nil _ _)]
      subst h
      by_cases hrest : (xs.filter fun y => key y = key x) = []
      · rw [if_pos hrest, hrest]
      · rw [if_neg hrest, Option.getD_some, List.append_assoc]
        rfl
    · rw [List.filter_cons_of_neg (by simpa using h), if_neg h]

theorem get?_groups (xs : List α) (k : K) :
    (groups key xs).get? k = if group key xs k = [] then none else some (group key xs k) := by
  rw [groups, get?_foldl_groups]
  rfl

theorem mem_keys_groups {xs : List α} {k : K} : k ∈ (groups key xs).keys ↔ ∃ x ∈ xs, key x = k := by
  rw [FinMap.mem_keys, get?_groups]
  have hgroup : group key xs k = [] ↔ ¬ ∃ x ∈ xs, key x = k := by
    rw [group, List.filter_eq_nil_iff]
    simp
  split
  · rename_i h
    exact iff_of_false (by simp) (hgroup.1 h)
  · rename_i h
    exact iff_of_true rfl (Classical.not_not.1 fun hne => h (hgroup.2 hne))

theorem entries_groups (xs : List α) :
    (groups key xs).entries = (groups key xs).keys.map fun k => (k, group key xs k) := by
  rw [FinMap.keys, List.map_map]
  conv_lhs => rw [← List.map_id (groups key xs).entries]
  refine List.map_congr_left fun e he => ?_
  have hget := FinMap.mem_entries.1 he
  rw [get?_groups] at hget
  split at hget
  · cases hget
  · exact Prod.ext rfl (Option.some.inj hget).symm

theorem keys_perm {xs ys : List α} (h : xs.Perm ys) :
    (groups key xs).keys.Perm (groups key ys).keys := by
  rw [List.perm_ext_iff_of_nodup (groups key xs).keys_nodup (groups key ys).keys_nodup]
  intro k
  rw [mem_keys_groups, mem_keys_groups]
  simp only [h.mem_iff]

end Groups

/-! ## Rearranged traversals -/

theorem map_ok_filterMap {ε α : Type} : ∀ {xs : List (Except ε α)}, (∀ x ∈ xs, ∃ a, x = .ok a) →
    (xs.filterMap Except.toOption).map .ok = xs
  | [], _ => rfl
  | x :: xs, h => by
    obtain ⟨⟨a, rfl⟩, hrest⟩ := List.forall_mem_cons.1 h
    have hcons : (Except.ok a :: xs).filterMap Except.toOption = a :: xs.filterMap Except.toOption :=
      List.filterMap_cons_some rfl
    rw [hcons, List.map_cons, map_ok_filterMap hrest]

theorem mapM_perm {ε α β : Type} {f : α → Except ε β} {xs ys : List α} {bs : List β}
    (h : xs.Perm ys) (hbs : xs.mapM f = .ok bs) : ∃ bs', ys.mapM f = .ok bs' ∧ bs.Perm bs' := by
  rw [Except.mapM_eq_ok] at hbs
  have hperm : (bs.map .ok).Perm (ys.map f) := hbs ▸ h.map f
  have hall : ∀ y ∈ ys.map f, ∃ b, y = .ok b := by
    intro y hy
    obtain ⟨b, -, he⟩ := List.mem_map.1 (hperm.mem_iff.2 hy)
    exact ⟨b, he.symm⟩
  refine ⟨(ys.map f).filterMap Except.toOption, ?_, ?_⟩
  · rw [Except.mapM_eq_ok, map_ok_filterMap hall]
  · have hvalues := hperm.filterMap Except.toOption
    rw [List.filterMap_map] at hvalues
    exact (@List.filterMap_some _ bs) ▸ hvalues

end Grouping
