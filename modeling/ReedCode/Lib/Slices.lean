import Mathlib.Algebra.Order.Ring.Nat
import Mathlib.Data.List.Basic
import Mathlib.Data.List.Infix

/-!
# Slices of a list

A slice is a piece of a list at an offset.  Slices that overlap can be merged by growing a
prefix: compare the overlap, append the rest.

* `Fits` — the piece is what the list holds at that offset;
* `extend`, `Agrees` — one step of merging, and its guard;
* `fits_extend` — soundness: after the step the piece fits, and what fitted before still does;
* `agrees_take`, `extend_take` — completeness: merging into a prefix of a list into which the
  piece fits never disagrees and yields a longer prefix.
-/

set_option autoImplicit false

universe u

namespace Slices

variable {α : Type u}

/-- `data` is what `whole` holds at `offset`. -/
def Fits (whole : List α) (offset : Nat) (data : List α) : Prop := data <+: whole.drop offset

/-- How much of the piece lies before the end of the prefix. -/
def overlap (merged : List α) (offset : Nat) (data : List α) : Nat :=
  min (merged.length - offset) data.length

/-- The piece repeats the prefix where the two overlap. -/
def Agrees (merged : List α) (offset : Nat) (data : List α) : Prop :=
  (merged.drop offset).take (overlap merged offset data) = data.take (overlap merged offset data)

instance [DecidableEq α] (whole : List α) (offset : Nat) (data : List α) :
    Decidable (Fits whole offset data) :=
  inferInstanceAs (Decidable (_ <+: _))

instance [DecidableEq α] (merged : List α) (offset : Nat) (data : List α) :
    Decidable (Agrees merged offset data) :=
  inferInstanceAs (Decidable (_ = _))

/-- Append what the prefix does not have yet. -/
def extend (merged : List α) (offset : Nat) (data : List α) : List α :=
  merged ++ data.drop (overlap merged offset data)

/-! ## What fits -/

theorem Fits.getElem? {whole data : List α} {offset i : Nat} (h : Fits whole offset data)
    (hi : i < data.length) : data[i]? = whole[offset + i]? := by
  obtain ⟨rest, hrest⟩ := h
  have : (whole.drop offset)[i]? = data[i]? := by rw [← hrest, List.getElem?_append_left hi]
  rw [← this, List.getElem?_drop]

theorem Fits.length_le {whole data : List α} {offset : Nat} (h : Fits whole offset data)
    (hne : data ≠ []) : offset + data.length ≤ whole.length := by
  have hle := List.IsPrefix.length_le h
  have := List.length_pos_iff.2 hne
  rw [List.length_drop] at hle
  omega

theorem Fits.mono {whole whole' data : List α} {offset : Nat} (h : Fits whole offset data)
    (hp : whole <+: whole') : Fits whole' offset data :=
  List.IsPrefix.trans h (hp.drop offset)

theorem fits_iff_take {whole data : List α} {offset : Nat} :
    Fits whole offset data ↔ (whole.drop offset).take data.length = data := by
  rw [Fits, List.prefix_iff_eq_take, eq_comm]

/-! ## Soundness of a step -/

theorem prefix_extend (merged : List α) (offset : Nat) (data : List α) :
    merged <+: extend merged offset data := List.prefix_append _ _

theorem length_extend {merged : List α} {offset : Nat} {data : List α}
    (h : offset ≤ merged.length) :
    (extend merged offset data).length = max merged.length (offset + data.length) := by
  rw [extend, List.length_append, List.length_drop, overlap]
  omega

theorem overlap_add_length {merged : List α} {offset : Nat} {data : List α} :
    overlap merged offset data + (extend merged offset data).length =
      merged.length + data.length := by
  rw [extend, List.length_append, List.length_drop, overlap]
  omega

theorem fits_extend {merged : List α} {offset : Nat} {data : List α}
    (h : offset ≤ merged.length) (ha : Agrees merged offset data) :
    Fits (extend merged offset data) offset data := by
  rw [Agrees] at ha
  rw [Fits, extend, List.drop_append_of_le_length h]
  rcases Nat.le_total (merged.length - offset) data.length with hle | hle
  · -- the piece reaches past the prefix
    have ho : overlap merged offset data = (merged.drop offset).length := by
      rw [overlap, Nat.min_eq_left hle, List.length_drop]
    rw [ho, List.take_length] at ha
    rw [ho]
    nth_rewrite 1 [ha]
    rw [List.take_append_drop]
  · -- the piece lies within the prefix
    have ho : overlap merged offset data = data.length := by rw [overlap, Nat.min_eq_right hle]
    rw [ho, List.take_length] at ha
    exact (ha ▸ List.take_prefix _ _ : data <+: merged.drop offset).trans
      (List.prefix_append _ _)

/-! ## Completeness of a step -/

theorem agrees_take {whole : List α} {n offset : Nat} {data : List α}
    (hf : Fits whole offset data) : Agrees (whole.take n) offset data := by
  rw [fits_iff_take] at hf
  have hle : overlap (whole.take n) offset data ≤ n - offset := by
    rw [overlap, List.length_take]
    omega
  have hle' : overlap (whole.take n) offset data ≤ data.length := Nat.min_le_right _ _
  rw [Agrees, List.drop_take, List.take_take, Nat.min_eq_left hle, ← hf, List.take_take,
    hf, Nat.min_eq_left hle']

theorem extend_take {whole : List α} {n offset : Nat} {data : List α}
    (hf : Fits whole offset data) (hne : data ≠ []) (ho : offset ≤ n) (hn : n ≤ whole.length) :
    extend (whole.take n) offset data = whole.take (max n (offset + data.length)) := by
  have hlen : (whole.take n).length = n := by rw [List.length_take, Nat.min_eq_left hn]
  have hend := hf.length_le hne
  refine List.ext_getElem? fun i => ?_
  rw [extend, overlap, hlen]
  rcases Nat.lt_or_ge i n with hi | hi
  · rw [List.getElem?_append_left (by omega), List.getElem?_take_of_lt hi,
      List.getElem?_take_of_lt (by omega)]
  · rw [List.getElem?_append_right (by omega), hlen, List.getElem?_drop]
    rcases Nat.lt_or_ge i (offset + data.length) with hi' | hi'
    · rw [List.getElem?_take_of_lt (by omega), hf.getElem? (by omega)]
      congr 1
      omega
    · rw [List.getElem?_eq_none (by omega), List.getElem?_eq_none]
      rw [List.length_take]
      omega

end Slices
