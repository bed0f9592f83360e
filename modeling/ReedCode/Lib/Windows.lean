import Mathlib

/-!
# Half-open windows

* `Covered` — the points of some window; `Separated` — windows in order that do not even touch.
* `mergeAll_separated`, `covered_mergeAll` — merging windows in the order of their starts leaves
  separated windows that cover the same points.
* `sum_clipped` — **clipped separated windows measure the points they cover**.
-/

set_option autoImplicit false

universe u

namespace ReedCode.Windows

variable {α : Type u} [LinearOrder α]

def Covers (w : α × α) (x : α) : Prop := w.1 ≤ x ∧ x < w.2

def Covered (ws : List (α × α)) (x : α) : Prop := ∃ w ∈ ws, Covers w x

instance (w : α × α) (x : α) : Decidable (Covers w x) := inferInstanceAs (Decidable (_ ∧ _))

instance (ws : List (α × α)) (x : α) : Decidable (Covered ws x) :=
  inferInstanceAs (Decidable (∃ w ∈ ws, Covers w x))

/-- Nonempty windows in strictly increasing order; each begins behind the end of the one before. -/
def Separated (ws : List (α × α)) : Prop :=
  (∀ w ∈ ws, w.1 < w.2) ∧ ws.Pairwise fun a b => a.2 < b.1

theorem covered_cons {w : α × α} {ws : List (α × α)} {x : α} :
    Covered (w :: ws) x ↔ Covers w x ∨ Covered ws x := by
  simp only [Covered, List.exists_mem_cons_iff]

/-! ## Merging -/

/-- Add one window; the window that was added last stands in front. -/
def merge (merged : List (α × α)) (w : α × α) : List (α × α) :=
  if w.2 ≤ w.1 then merged
  else
    match merged with
    | [] => [w]
    | last :: rest =>
      if w.1 ≤ last.2 then (last.1, max w.2 last.2) :: rest else w :: last :: rest

/-- The windows so far, the last in front: nonempty, each behind the next of the list, and none of
them beginning behind `start`. -/
structure Merged (merged : List (α × α)) (start : α → Prop) : Prop where
  nonempty : ∀ w ∈ merged, w.1 < w.2
  behind : merged.Pairwise fun b a => a.2 < b.1
  early : ∀ w ∈ merged, ∀ x, start x → w.1 ≤ x

/-- A window that begins behind all starts is added. -/
theorem Merged.merge {merged : List (α × α)} {start : α → Prop} (h : Merged merged start)
    {w : α × α} (hw : start w.1) (hlater : ∀ x, start x → w.1 ≤ x) :
    Merged (Windows.merge merged w) start ∧
      ∀ x, Covered (Windows.merge merged w) x ↔ Covered merged x ∨ Covers w x := by
  unfold Windows.merge
  split
  · rename_i hempty
    refine ⟨h, fun x => ?_⟩
    have hnone : ¬ Covers w x := fun hx => absurd (hx.1.trans_lt hx.2) (not_lt.2 hempty)
    rw [or_iff_left hnone]
  · rename_i hne
    rw [not_le] at hne
    cases merged with
    | nil =>
      refine ⟨⟨?_, List.pairwise_singleton _ _, ?_⟩, fun x => ?_⟩
      · intro v hv
        rw [List.mem_singleton.1 hv]
        exact hne
      · intro v hv
        rw [List.mem_singleton.1 hv]
        exact hlater
      · rw [covered_cons, or_comm]
    | cons last rest =>
      obtain ⟨hnonempty, hbehind, hearly⟩ := h
      rw [List.forall_mem_cons] at hnonempty hearly
      rw [List.pairwise_cons] at hbehind
      dsimp only
      split
      · rename_i htouch
        have hstart : last.1 ≤ w.1 := hearly.1 w.1 hw
        refine ⟨⟨?_, ?_, ?_⟩, fun x => ?_⟩
        · exact List.forall_mem_cons.2 ⟨lt_max_of_lt_right hnonempty.1, hnonempty.2⟩
        · exact List.pairwise_cons.2 ⟨hbehind.1, hbehind.2⟩
        · exact List.forall_mem_cons.2 ⟨hearly.1, hearly.2⟩
        · rw [covered_cons, covered_cons, or_right_comm]
          refine or_congr_left ?_
          -- the two windows touch, so that nothing lies between them
          constructor
          · rintro ⟨hx, hx'⟩
            rcases lt_or_ge x last.2 with hlast | hlast
            · exact Or.inl ⟨hx, hlast⟩
            · exact Or.inr ⟨htouch.trans hlast, (lt_max_iff.1 hx').resolve_right (not_lt.2 hlast)⟩
          · rintro (⟨hx, hx'⟩ | ⟨hx, hx'⟩)
            · exact ⟨hx, lt_max_of_lt_right hx'⟩
            · exact ⟨hstart.trans hx, lt_max_of_lt_left hx'⟩
      · rename_i hgap
        rw [not_le] at hgap
        refine ⟨⟨?_, ?_, ?_⟩, fun x => ?_⟩
        · exact List.forall_mem_cons.2 ⟨hne, List.forall_mem_cons.2 hnonempty⟩
        · refine List.pairwise_cons.2 ⟨?_, List.pairwise_cons.2 hbehind⟩
          intro v hv
          rcases List.mem_cons.1 hv with rfl | hv
          · exact hgap
          · exact (hbehind.1 v hv).trans (hnonempty.1.trans hgap)
        · exact List.forall_mem_cons.2 ⟨hlater, List.forall_mem_cons.2 hearly⟩
        · rw [covered_cons, or_comm]

/-- Add windows in the order of their starts. -/
def mergeAll (merged ws : List (α × α)) : List (α × α) := ws.foldl merge merged

theorem mergeAll_spec : ∀ {ws merged : List (α × α)}, ws.Pairwise (fun a b => a.1 ≤ b.1) →
    Merged merged (fun x => ∃ w ∈ ws, w.1 = x) →
      Separated (mergeAll merged ws).reverse ∧
        ∀ x, Covered (mergeAll merged ws).reverse x ↔ Covered merged x ∨ Covered ws x
  | [], merged, _, h => by
    have hmem : ∀ w, w ∈ merged.reverse ↔ w ∈ merged := fun w => List.mem_reverse
    refine ⟨⟨fun w hw => h.nonempty w ((hmem w).1 hw), List.pairwise_reverse.2 h.behind⟩, ?_⟩
    intro x
    simp only [mergeAll, List.foldl_nil, Covered, hmem, List.not_mem_nil, false_and, exists_false,
      or_false]
  | w :: ws, merged, hsorted, h => by
    rw [List.pairwise_cons] at hsorted
    have hlater : ∀ x, (∃ v ∈ w :: ws, v.1 = x) → w.1 ≤ x := by
      rintro x ⟨v, hv, rfl⟩
      rcases List.mem_cons.1 hv with rfl | hv
      · exact le_rfl
      · exact hsorted.1 v hv
    obtain ⟨hmerged, hcovered⟩ := h.merge ⟨w, List.mem_cons_self, rfl⟩ hlater
    obtain ⟨hseparated, hall⟩ := mergeAll_spec hsorted.2
      ⟨hmerged.nonempty, hmerged.behind, fun v hv x hx => hmerged.early v hv x (by
        obtain ⟨v', hv', hx⟩ := hx
        exact ⟨v', List.mem_cons_of_mem _ hv', hx⟩)⟩
    refine ⟨hseparated, fun x => ?_⟩
    rw [mergeAll, List.foldl_cons]
    refine (hall x).trans ?_
    rw [hcovered, covered_cons, or_assoc]

/-! ## Measure -/

section Measure

/-- The length of the part of `[s, e)` that a window covers. -/
def clipped (s e : Int) (w : Int × Int) : Int := max 0 (min e w.2 - max s w.1)

theorem clipped_eq_card (s e : Int) (w : Int × Int) :
    clipped s e w = (((Finset.Ico s e).filter (Covers w)).card : Int) := by
  have hfilter : (Finset.Ico s e).filter (Covers w) = Finset.Ico (max s w.1) (min e w.2) := by
    ext x
    simp only [Finset.mem_filter, Finset.mem_Ico, Covers]
    omega
  rw [hfilter, Int.card_Ico, clipped]
  omega

/-- The points of `[s, e)` that some window covers. -/
noncomputable def coveredPoints (s e : Int) (ws : List (Int × Int)) : Finset Int :=
  (Finset.Ico s e).filter (Covered ws)

/-- **Clipped separated windows measure the points they cover.** -/
theorem sum_clipped (s e : Int) : ∀ {ws : List (Int × Int)}, Separated ws →
    (ws.map (clipped s e)).sum = ((coveredPoints s e ws).card : Int)
  | [], _ => by
    have hnone : coveredPoints s e [] = ∅ := by
      refine Finset.filter_eq_empty_iff.2 ?_
      rintro x - ⟨w, hw, -⟩
      cases hw
    rw [hnone]
    rfl
  | w :: ws, h => by
    obtain ⟨hnonempty, hpairwise⟩ := h
    rw [List.forall_mem_cons] at hnonempty
    rw [List.pairwise_cons] at hpairwise
    have ih : (ws.map (clipped s e)).sum = ((coveredPoints s e ws).card : Int) :=
      sum_clipped s e ⟨hnonempty.2, hpairwise.2⟩
    have hunion : coveredPoints s e (w :: ws) =
        (Finset.Ico s e).filter (Covers w) ∪ coveredPoints s e ws := by
      rw [coveredPoints, coveredPoints, ← Finset.filter_or]
      exact Finset.filter_congr fun x _ => covered_cons
    have hdisjoint : Disjoint ((Finset.Ico s e).filter (Covers w)) (coveredPoints s e ws) := by
      refine Finset.disjoint_filter.2 ?_
      rintro x - hx ⟨v, hv, hx'⟩
      have hgap := hpairwise.1 v hv
      exact absurd (hx.2.trans (hgap.trans_le hx'.1)) (lt_irrefl x)
    rw [List.map_cons, List.sum_cons, ih, clipped_eq_card, hunion,
      Finset.card_union_of_disjoint hdisjoint, Nat.cast_add]

end Measure

end ReedCode.Windows
