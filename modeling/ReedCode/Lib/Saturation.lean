import ReedCode.Lib.Descendants
import Mathlib.Data.Finset.Card
import Mathlib.Data.Finset.Union

/-!
# Saturation

A loop that expands a set until it stays the same.

* `Ends` — the loop from one set ends with another; it ends with one set only.
* `exists_ends` — **it ends**, when sets grow within a bound.
* `expand`, `mem_of_ends` — adding the children of a set ends with the descendants of its root.
-/

set_option autoImplicit false

universe u v

namespace ReedCode.Saturation

section Loop

variable {α : Type u} {f : Finset α → Finset α}

/-- `while True: expanded = f(s); if expanded == s: return s; s = expanded`. -/
inductive Ends (f : Finset α → Finset α) : Finset α → Finset α → Prop
  | fixed {s : Finset α} : f s = s → Ends f s s
  | expand {s t : Finset α} : f s ≠ s → Ends f (f s) t → Ends f s t

theorem Ends.unique {s t t' : Finset α} (h : Ends f s t) (h' : Ends f s t') : t = t' := by
  induction h with
  | fixed hfixed =>
    cases h' with
    | fixed _ => rfl
    | expand hne _ => exact absurd hfixed hne
  | expand hne _ ih =>
    cases h' with
    | fixed hfixed => exact absurd hfixed hne
    | expand _ hrest => exact ih hrest

theorem Ends.fixed_point {s t : Finset α} (h : Ends f s t) : f t = t := by
  induction h with
  | fixed hfixed => exact hfixed
  | expand _ _ ih => exact ih

/-- The invariant rule. -/
theorem Ends.invariant {P : Finset α → Prop} (hstep : ∀ s, P s → P (f s)) {s t : Finset α}
    (h : Ends f s t) (hs : P s) : P t := by
  induction h with
  | fixed _ => exact hs
  | expand _ _ ih => exact ih (hstep _ hs)

/-- **Sets that grow within a bound end the loop.** -/
theorem exists_ends (hgrow : ∀ s, s ⊆ f s) {bound : Finset α}
    (hbound : ∀ s, s ⊆ bound → f s ⊆ bound) {s : Finset α} (hs : s ⊆ bound) :
    ∃ t, Ends f s t := by
  generalize hn : bound.card - s.card = n
  induction n using Nat.strong_induction_on generalizing s with
  | _ n ih =>
    by_cases hfixed : f s = s
    · exact ⟨s, .fixed hfixed⟩
    · have hlt : s.card < (f s).card :=
        Finset.card_lt_card ((hgrow s).ssubset_of_ne (Ne.symm hfixed))
      have hle : (f s).card ≤ bound.card := Finset.card_le_card (hbound s hs)
      obtain ⟨t, ht⟩ := ih (bound.card - (f s).card) (by omega) (hbound s hs) rfl
      exact ⟨t, .expand hfixed ht⟩

end Loop

/-! ## Descendants -/

section Descendants

open ReedCode.Descendants

variable {α : Type u} {κ : Type v} [DecidableEq κ] {key parent : α → κ} {items : List α} {root : κ}

/-- Add the keys of the items whose parent is in the set. -/
def expand (key parent : α → κ) (items : List α) (selected : Finset κ) : Finset κ :=
  selected ∪ ((items.filter fun a => parent a ∈ selected).map key).toFinset

theorem mem_expand {selected : Finset κ} {k : κ} : k ∈ expand key parent items selected ↔
    k ∈ selected ∨ ∃ a ∈ items, parent a ∈ selected ∧ key a = k := by
  simp only [expand, Finset.mem_union, List.mem_toFinset, List.mem_map, List.mem_filter,
    decide_eq_true_eq, and_assoc]

/-- The loop ends for every list of items. -/
theorem expand_ends (key parent : α → κ) (items : List α) (root : κ) :
    ∃ t, Ends (expand key parent items) {root} t := by
  have hgrow : ∀ s, s ⊆ expand key parent items s := fun s => Finset.subset_union_left
  have hbound : ∀ s, s ⊆ insert root (items.map key).toFinset →
      expand key parent items s ⊆ insert root (items.map key).toFinset := by
    intro s hs k hk
    rcases mem_expand.1 hk with hk | ⟨a, ha, -, rfl⟩
    · exact hs hk
    · exact Finset.mem_insert_of_mem (List.mem_toFinset.2 (List.mem_map_of_mem ha))
  exact exists_ends hgrow hbound (Finset.singleton_subset_iff.2 (Finset.mem_insert_self _ _))

/-- **It ends with the descendants of its root.** -/
theorem mem_of_ends {t : Finset κ} (h : Ends (expand key parent items) {root} t) {k : κ} :
    k ∈ t ↔ Descends key parent items root k := by
  constructor
  · refine h.invariant (P := fun s => ∀ k ∈ s, Descends key parent items root k) ?_ ?_ k
    · intro s hs k hk
      rcases mem_expand.1 hk with hk | ⟨a, ha, hparent, rfl⟩
      · exact hs k hk
      · exact .child ha (hs _ hparent)
    · intro k hk
      rw [Finset.mem_singleton.1 hk]
      exact .root
  · intro hd
    induction hd with
    | root =>
      refine h.invariant (P := fun s => root ∈ s) ?_ (Finset.mem_singleton_self root)
      exact fun s hs => mem_expand.2 (Or.inl hs)
    | child ha _ ih =>
      rw [← h.fixed_point]
      exact mem_expand.2 (Or.inr ⟨_, ha, ih, rfl⟩)

end Descendants

end ReedCode.Saturation
