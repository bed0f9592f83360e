import ReedCode.Lib.Windows
import Mathlib.Data.List.Sort

/-!
# Overlap of request windows

`union` and `overlap` of `overlap.py`, on windows of integer nanoseconds.

* `union_spec` — the union is separated and covers what the windows cover.
* `overlap_eq_card` — the overlap counts the covered points of a window.
* `overlap_exact` — **overlap measures are exact**, whatever the order and multiplicity of the others.
-/

set_option autoImplicit false

namespace ReedCode.PreparationCredit

open Windows

abbrev Window := Int × Int

/-! ## The code -/

/-- The order of pairs. -/
def windowLe (a b : Window) : Prop := a.1 < b.1 ∨ a.1 = b.1 ∧ a.2 ≤ b.2

instance (a b : Window) : Decidable (windowLe a b) := inferInstanceAs (Decidable (_ ∨ _ ∧ _))

/-- `union`; the loop keeps the window that was merged last in front. -/
def union (windows : List Window) : List Window :=
  (mergeAll [] (windows.insertionSort windowLe)).reverse

/-- `overlap`; a window that is not known has none. -/
def overlap (window : Option Window) (others : List Window) : Option Int :=
  window.map fun w => ((union others).map (clipped w.1 w.2)).sum

/-! ## The union -/

theorem sorted_starts (windows : List Window) :
    (windows.insertionSort windowLe).Pairwise fun a b => a.1 ≤ b.1 := by
  have : Std.Total windowLe := ⟨fun a b => by unfold windowLe; omega⟩
  have : IsTrans Window windowLe := ⟨fun a b c => by unfold windowLe; omega⟩
  refine (List.pairwise_insertionSort windowLe windows).imp ?_
  intro a b h
  rcases h with h | h
  · exact h.le
  · exact h.1.le

/-- **The union covers what the windows cover**, in windows that do not touch. -/
theorem union_spec (windows : List Window) :
    Separated (union windows) ∧ ∀ x, Covered (union windows) x ↔ Covered windows x := by
  obtain ⟨hseparated, hcovered⟩ := mergeAll_spec (sorted_starts windows)
    ⟨fun _ hw => (by cases hw), .nil, fun _ hw => (by cases hw)⟩
  refine ⟨hseparated, fun x => (hcovered x).trans ?_⟩
  constructor
  · rintro (⟨w, hw, -⟩ | ⟨w, hw, hx⟩)
    · cases hw
    · exact ⟨w, (List.mem_insertionSort windowLe).1 hw, hx⟩
  · rintro ⟨w, hw, hx⟩
    exact Or.inr ⟨w, (List.mem_insertionSort windowLe).2 hw, hx⟩

/-! ## The overlap -/

theorem coveredPoints_congr {s e : Int} {ws ws' : List Window}
    (h : ∀ x, Covered ws x ↔ Covered ws' x) : coveredPoints s e ws = coveredPoints s e ws' :=
  Finset.filter_congr fun x _ => h x

/-- **The overlap counts the covered points of a window.** -/
theorem overlap_eq_card (s e : Int) (others : List Window) :
    overlap (some (s, e)) others = some ((coveredPoints s e others).card : Int) := by
  obtain ⟨hseparated, hcovered⟩ := union_spec others
  rw [overlap, Option.map_some, sum_clipped s e hseparated, coveredPoints_congr hcovered]

theorem coveredPoints_mono {s e : Int} {ws ws' : List Window} (h : ∀ w ∈ ws, w ∈ ws') :
    coveredPoints s e ws ⊆ coveredPoints s e ws' := by
  refine Finset.monotone_filter_right _ ?_
  rintro x - ⟨w, hw, hx⟩
  exact ⟨w, h w hw, hx⟩

theorem card_coveredPoints_le {s e : Int} (hse : s ≤ e) (ws : List Window) :
    ((coveredPoints s e ws).card : Int) ≤ e - s := by
  have hle := Finset.card_filter_le (Finset.Ico s e) (Covered ws)
  rw [Int.card_Ico] at hle
  have hlength : ((e - s).toNat : Int) = e - s := Int.toNat_of_nonneg (by omega)
  rw [coveredPoints]
  omega

/-- The points of a window that is cut in two are those of its parts. -/
theorem card_coveredPoints_cut {s m e : Int} (hsm : s ≤ m) (hme : m ≤ e) (ws : List Window) :
    (coveredPoints s e ws).card = (coveredPoints s m ws).card + (coveredPoints m e ws).card := by
  have hunion : coveredPoints s e ws = coveredPoints s m ws ∪ coveredPoints m e ws := by
    rw [coveredPoints, coveredPoints, coveredPoints, ← Finset.filter_union,
      Finset.Ico_union_Ico_eq_Ico hsm hme]
  have hdisjoint : Disjoint (coveredPoints s m ws) (coveredPoints m e ws) := by
    refine Finset.disjoint_filter_filter (Finset.disjoint_left.2 ?_)
    intro x hx hx'
    rw [Finset.mem_Ico] at hx hx'
    omega
  rw [hunion, Finset.card_union_of_disjoint hdisjoint]

/-- What is asked of the overlap of the window `[s, e)`. -/
structure OverlapExact (s e : Int) (others : List Window) : Prop where
  counts : overlap (some (s, e)) others =
    some (((Finset.Ico s e).filter fun x => ∃ w ∈ others, w.1 ≤ x ∧ x < w.2).card : Int)
  congr : ∀ others', (∀ w, w ∈ others ↔ w ∈ others') →
    overlap (some (s, e)) others' = overlap (some (s, e)) others
  mono : ∀ others', (∀ w ∈ others, w ∈ others') →
    ∃ n n', overlap (some (s, e)) others = some n ∧ overlap (some (s, e)) others' = some n' ∧ n ≤ n'
  bounded : ∃ n, overlap (some (s, e)) others = some n ∧ 0 ≤ n ∧ n ≤ e - s
  additive : ∀ m, s ≤ m → m ≤ e → ∃ n n', overlap (some (s, m)) others = some n ∧
    overlap (some (m, e)) others = some n' ∧ overlap (some (s, e)) others = some (n + n')

/-- **Overlap measures are exact.** -/
theorem overlap_exact (others : List Window) :
    ((∀ w ∈ union others, w.1 < w.2) ∧ (union others).Pairwise (fun a b => a.2 < b.1) ∧
      ∀ x, (∃ w ∈ union others, w.1 ≤ x ∧ x < w.2) ↔ ∃ w ∈ others, w.1 ≤ x ∧ x < w.2) ∧
    ∀ s e : Int, s ≤ e → OverlapExact s e others := by
  obtain ⟨hseparated, hcovered⟩ := union_spec others
  refine ⟨⟨hseparated.1, hseparated.2, hcovered⟩, fun s e hse => ⟨?_, ?_, ?_, ?_, ?_⟩⟩
  · exact overlap_eq_card s e others
  · intro others' hsame
    rw [overlap_eq_card, overlap_eq_card]
    refine congrArg (fun points : Finset Int => some (points.card : Int)) ?_
    exact subset_antisymm (coveredPoints_mono fun w hw => (hsame w).2 hw)
      (coveredPoints_mono fun w hw => (hsame w).1 hw)
  · intro others' hsub
    refine ⟨_, _, overlap_eq_card s e others, overlap_eq_card s e others', ?_⟩
    exact Int.ofNat_le.2 (Finset.card_le_card (coveredPoints_mono hsub))
  · exact ⟨_, overlap_eq_card s e others, Int.natCast_nonneg _, card_coveredPoints_le hse others⟩
  · intro m hsm hme
    refine ⟨_, _, overlap_eq_card s m others, overlap_eq_card m e others, ?_⟩
    rw [overlap_eq_card, card_coveredPoints_cut hsm hme, Nat.cast_add]

/-- Nested, touching, empty and repeated windows. -/
theorem overlap_exact_nested :
    OverlapExact 0 10 [(4, 6), (1, 3), (1, 2), (3, 4), (9, 12), (7, 7), (1, 2)] ∧
      overlap (some (0, 10)) [(4, 6), (1, 3), (1, 2), (3, 4), (9, 12), (7, 7), (1, 2)] = some 6 :=
  ⟨(overlap_exact _).2 0 10 (by decide), by decide⟩

end ReedCode.PreparationCredit
