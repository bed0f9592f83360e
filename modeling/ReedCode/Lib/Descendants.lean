import Mathlib.Data.List.Sort

/-!
# Descendants in a list of items

Every item has a key and the key of its parent.

* `Descends` — the keys that the root leads to.
* `closure` — the keys found by adding children until there are no more; `mem_closure` says that
  they are the descendants, in whatever order the items stand.
* `insertionSort_perm` — items with different keys are sorted into one order.
-/

set_option autoImplicit false

namespace ReedCode.Descendants

universe u v

variable {α : Type u} {κ : Type v} [DecidableEq κ] (key parent : α → κ)

/-- The root, and the keys of the items whose parent descends from it. -/
inductive Descends (items : List α) (root : κ) : κ → Prop
  | root : Descends items root root
  | child {a : α} : a ∈ items → Descends items root (parent a) → Descends items root (key a)

/-- The keys of the items that are not selected and whose parent is. -/
def children (items : List α) (selected : List κ) : List κ :=
  (items.filter fun a => parent a ∈ selected ∧ key a ∉ selected).map key

/-- Add children until there are no more. -/
def closeFrom (items : List α) : Nat → List κ → List κ
  | 0, selected => selected
  | fuel + 1, selected =>
    match children key parent items selected with
    | [] => selected
    | next => closeFrom items fuel (selected ++ next)

def closure (items : List α) (root : κ) : List κ := closeFrom key parent items items.length [root]

variable {key parent} {items items' : List α} {root : κ}

theorem mem_children {selected : List κ} {k : κ} : k ∈ children key parent items selected ↔
    ∃ a ∈ items, parent a ∈ selected ∧ key a ∉ selected ∧ key a = k := by
  simp only [children, List.mem_map, List.mem_filter, decide_eq_true_eq, and_assoc]

/-- Nothing but descendants is added. -/
theorem closeFrom_sound : ∀ {fuel : Nat} {selected : List κ},
    (∀ k ∈ selected, Descends key parent items root k) →
      ∀ k ∈ closeFrom key parent items fuel selected, Descends key parent items root k
  | 0, selected, h => h
  | fuel + 1, selected, h => by
    rw [closeFrom]
    split
    · exact h
    · refine closeFrom_sound ?_
      intro k hk
      rcases List.mem_append.1 hk with hk | hk
      · exact h k hk
      · obtain ⟨a, ha, hparent, -, rfl⟩ := mem_children.1 hk
        exact .child ha (h _ hparent)

/-- How many items are left out. -/
def left (key : α → κ) (items : List α) (selected : List κ) : Nat :=
  items.countP fun a => key a ∉ selected

theorem left_append_lt (selected : List κ) {next : List κ}
    (hnext : ∀ k ∈ next, k ∈ children key parent items selected) (hne : next ≠ []) :
    left key items (selected ++ next) < left key items selected := by
  obtain ⟨k, hk⟩ := List.exists_mem_of_ne_nil next hne
  obtain ⟨a, ha, -, hnew, rfl⟩ := mem_children.1 (hnext k hk)
  have hsplit : ∀ xs : List α,
      xs.countP (fun b => key b ∉ selected ++ next) ≤ xs.countP (fun b => key b ∉ selected) ∧
      (a ∈ xs → xs.countP (fun b => key b ∉ selected ++ next) <
        xs.countP (fun b => key b ∉ selected)) := by
    intro xs
    induction xs with
    | nil => exact ⟨le_rfl, fun h => by cases h⟩
    | cons b xs ih =>
      have hone : (if key b ∉ selected ++ next then 1 else 0) ≤ if key b ∉ selected then 1 else 0 := by
        by_cases hb : key b ∈ selected
        · simp [hb]
        · by_cases hb' : key b ∈ next <;> simp [hb, hb']
      simp only [List.countP_cons, decide_eq_true_eq]
      refine ⟨Nat.add_le_add ih.1 hone, ?_⟩
      intro hmem
      rcases List.mem_cons.1 hmem with rfl | hmem
      · have htail := ih.1
        rw [if_neg (not_not.2 (List.mem_append_right _ hk)), if_pos hnew]
        omega
      · exact Nat.add_lt_add_of_lt_of_le (ih.2 hmem) hone
  exact (hsplit items).2 ha

/-- In the end there are no children left. -/
theorem children_closeFrom : ∀ {fuel : Nat} {selected : List κ},
    left key items selected ≤ fuel →
      children key parent items (closeFrom key parent items fuel selected) = []
  | 0, selected, h => by
    have hnone : ∀ a ∈ items, ¬ (parent a ∈ selected ∧ key a ∉ selected) := by
      rintro a ha ⟨-, hnew⟩
      have hpos : 0 < left key items selected :=
        List.countP_pos_iff.2 ⟨a, ha, decide_eq_true hnew⟩
      omega
    rw [closeFrom, children, List.filter_eq_nil_iff.2 (by simpa using hnone)]
    rfl
  | fuel + 1, selected, h => by
    rw [closeFrom]
    split
    · assumption
    · rename_i hne
      refine children_closeFrom ?_
      have hlt := left_append_lt selected (fun k hk => hk) hne
      omega

theorem subset_closeFrom : ∀ {fuel : Nat} {selected : List κ} {k : κ}, k ∈ selected →
    k ∈ closeFrom key parent items fuel selected
  | 0, _, _, h => h
  | fuel + 1, selected, k, h => by
    rw [closeFrom]
    split
    · exact h
    · exact subset_closeFrom (List.mem_append_left _ h)

/-- **The closure consists of the descendants.** -/
theorem mem_closure {k : κ} :
    k ∈ closure key parent items root ↔ Descends key parent items root k := by
  constructor
  · refine fun h => closeFrom_sound ?_ k h
    intro k hk
    rw [List.mem_singleton] at hk
    exact hk ▸ .root
  · intro h
    induction h with
    | root => exact subset_closeFrom (List.mem_singleton.2 rfl)
    | @child a ha _ ih =>
      by_contra hnew
      have hchildren : children key parent items (closure key parent items root) = [] :=
        children_closeFrom List.countP_le_length
      have hmem : key a ∈ children key parent items (closure key parent items root) :=
        mem_children.2 ⟨a, ha, ih, hnew, rfl⟩
      rw [hchildren] at hmem
      cases hmem

omit [DecidableEq κ] in
/-- The descendants do not depend on the order of the items. -/
theorem Descends.mono (hsub : ∀ a ∈ items, a ∈ items') {k : κ}
    (h : Descends key parent items root k) : Descends key parent items' root k := by
  induction h with
  | root => exact .root
  | child ha _ ih => exact .child (hsub _ ha) ih

/-- The selected items alone have the same descendants. -/
theorem Descends.restrict {k : κ} (h : Descends key parent items root k) :
    Descends key parent (items.filter fun a => key a ∈ closure key parent items root) root k := by
  induction h with
  | root => exact .root
  | child ha hparent ih =>
    refine .child (List.mem_filter.2 ⟨ha, decide_eq_true ?_⟩) ih
    exact mem_closure.2 (.child ha hparent)

/-! ## Sorting by keys -/

/-- Items with different keys have one sorted order. -/
theorem insertionSort_perm {κ : Type v} [LinearOrder κ] (key : α → κ) {xs ys : List α}
    (hperm : xs.Perm ys) (hinj : ∀ a ∈ xs, ∀ b ∈ xs, key a = key b → a = b) :
    xs.insertionSort (fun a b => key a ≤ key b) = ys.insertionSort (fun a b => key a ≤ key b) := by
  have : Std.Total fun a b : α => key a ≤ key b := ⟨fun a b => le_total (key a) (key b)⟩
  have : IsTrans α fun a b : α => key a ≤ key b := ⟨fun _ _ _ hab hbc => le_trans hab hbc⟩
  refine List.Perm.eq_of_pairwise ?_ (List.pairwise_insertionSort _ xs)
    (List.pairwise_insertionSort _ ys) ?_
  · intro a b ha hb hab hba
    rw [List.mem_insertionSort] at ha hb
    exact hinj a ha b (hperm.mem_iff.2 hb) (le_antisymm hab hba)
  · exact (List.perm_insertionSort _ xs).trans (hperm.trans (List.perm_insertionSort _ ys).symm)

end ReedCode.Descendants
