import Mathlib.Order.Bounds.Basic

/-!
# Common prefixes of two lists

* `commonLength` — the length of the longest common prefix, item by item (`commonLength_spec`).
* `shared_iff` — the lengths up to which two lists agree are those below it.
* `take_eq_of_le_commonLength`, `commonLength_comm`, `commonLength_eq_length`,
  `prefix_of_commonLength` — what follows.
-/

set_option autoImplicit false

namespace ReedCode.Lists

universe u

variable {α : Type u} [DecidableEq α]

def commonLength : List α → List α → Nat
  | a :: left, b :: right => if a = b then commonLength left right + 1 else 0
  | _, _ => 0

/-- **`commonLength` is the length of the longest common prefix.** -/
theorem commonLength_spec : ∀ left right : List α,
    IsGreatest {n | n ≤ left.length ∧ n ≤ right.length ∧ left.take n = right.take n}
      (commonLength left right)
  | [], right => by
    refine ⟨⟨Nat.le_refl 0, Nat.zero_le _, by simp [commonLength]⟩, ?_⟩
    rintro n ⟨hn, -, -⟩
    exact hn
  | a :: left, [] => by
    refine ⟨⟨Nat.zero_le _, Nat.le_refl 0, by simp [commonLength]⟩, ?_⟩
    rintro n ⟨-, hn, -⟩
    exact hn
  | a :: left, b :: right => by
    obtain ⟨⟨hl, hr, htake⟩, hmax⟩ := commonLength_spec left right
    rw [commonLength]
    split
    · rename_i hab
      subst hab
      refine ⟨⟨Nat.succ_le_succ hl, Nat.succ_le_succ hr, by simpa using htake⟩, ?_⟩
      rintro n ⟨hnl, hnr, hn⟩
      cases n with
      | zero => exact Nat.zero_le _
      | succ n =>
        rw [List.take_succ_cons, List.take_succ_cons, List.cons.injEq] at hn
        exact Nat.succ_le_succ (hmax ⟨Nat.le_of_succ_le_succ hnl, Nat.le_of_succ_le_succ hnr, hn.2⟩)
    · rename_i hab
      refine ⟨⟨Nat.zero_le _, Nat.zero_le _, rfl⟩, ?_⟩
      rintro n ⟨-, -, hn⟩
      cases n with
      | zero => exact Nat.le_refl 0
      | succ n =>
        rw [List.take_succ_cons, List.take_succ_cons, List.cons.injEq] at hn
        exact absurd hn.1 hab

theorem commonLength_le_left (left right : List α) : commonLength left right ≤ left.length :=
  (commonLength_spec left right).1.1

theorem commonLength_le_right (left right : List α) : commonLength left right ≤ right.length :=
  (commonLength_spec left right).1.2.1

/-- Two lists agree up to their common length. -/
theorem take_eq_of_le_commonLength {left right : List α} {n : Nat}
    (h : n ≤ commonLength left right) : left.take n = right.take n := by
  have hall := congrArg (List.take n) (commonLength_spec left right).1.2.2
  rwa [List.take_take, List.take_take, Nat.min_eq_left h] at hall

theorem commonLength_comm (left right : List α) :
    commonLength left right = commonLength right left := by
  refine le_antisymm ?_ ?_
  · exact (commonLength_spec right left).2 ⟨commonLength_le_right _ _, commonLength_le_left _ _,
      (take_eq_of_le_commonLength le_rfl).symm⟩
  · exact (commonLength_spec left right).2 ⟨commonLength_le_right _ _, commonLength_le_left _ _,
      (take_eq_of_le_commonLength le_rfl).symm⟩

/-- The two lists have their first `n` items in common. -/
def Shared (left right : List α) (n : Nat) : Prop :=
  n ≤ left.length ∧ n ≤ right.length ∧ left.take n = right.take n

theorem shared_iff {left right : List α} {n : Nat} :
    Shared left right n ↔ n ≤ commonLength left right :=
  ⟨fun h => (commonLength_spec left right).2 h, fun h =>
    ⟨h.trans (commonLength_le_left left right), h.trans (commonLength_le_right left right),
      take_eq_of_le_commonLength h⟩⟩

/-- A list that has all of its length in common is a prefix. -/
theorem prefix_of_commonLength {left right : List α} (h : commonLength left right = right.length) :
    right <+: left := by
  have htake := take_eq_of_le_commonLength (le_of_eq h.symm)
  rw [List.take_length] at htake
  exact List.prefix_iff_eq_take.2 htake.symm

/-- A prefix has all of its length in common. -/
theorem commonLength_eq_length {left right : List α} (h : right <+: left) :
    commonLength left right = right.length :=
  le_antisymm (commonLength_le_right left right)
    ((commonLength_spec left right).2 ⟨h.length_le, le_rfl, by
      rw [List.take_length]
      exact (List.prefix_iff_eq_take.1 h).symm⟩)

theorem properPrefix_iff {left right : List α} :
    commonLength left right = right.length ∧ right.length < left.length ↔
      right <+: left ∧ right ≠ left := by
  constructor
  · rintro ⟨h, hlt⟩
    refine ⟨prefix_of_commonLength h, ?_⟩
    rintro rfl
    exact absurd hlt (Nat.lt_irrefl _)
  · rintro ⟨h, hne⟩
    exact ⟨commonLength_eq_length h,
      lt_of_le_of_ne h.length_le fun hlen => hne (h.eq_of_length hlen)⟩

theorem commonLength_map {β : Type*} [DecidableEq β] {f : α → β} (hf : Function.Injective f) :
    ∀ left right : List α, commonLength (left.map f) (right.map f) = commonLength left right
  | [], _ => by simp [commonLength]
  | _ :: _, [] => by simp [commonLength]
  | a :: left, b :: right => by
    simp only [List.map_cons, commonLength, hf.eq_iff, commonLength_map hf left right]

end ReedCode.Lists
