import Mathlib.Data.List.Basic

/-!
# Numbers and separators in names

* `zeroPad` — a number with leading zeros; `zeroPad_inj`, `zeroPad_ne`.
* `append_cons_inj`, `append_cons_inj_right` — a name read up to a separator, from the left and from
  the right.
-/

set_option autoImplicit false

universe u

namespace Digits

/-- The decimal digits with leading zeros up to a width. -/
def zeroPad (width n : Nat) : List Char :=
  List.replicate (width - (Nat.toDigits 10 n).length) '0' ++ Nat.toDigits 10 n

theorem zeroPad_inj {width width' m n : Nat} (h : zeroPad width m = zeroPad width' n) : m = n := by
  have hnat := congrArg (fun digits => Nat.ofDigitChars 10 digits 0) h
  simpa only [zeroPad, Nat.ofDigitChars_append, Nat.ofDigitChars_replicate_zero, Nat.mul_zero,
    Nat.ofDigitChars_ten_toDigits] using hnat

/-- Only digits are in a number. -/
theorem zeroPad_ne {width n : Nat} {sep : Char} (hsep : sep.isDigit = false) :
    sep ∉ zeroPad width n := by
  intro hmem
  rcases List.mem_append.1 hmem with hzero | hdigit
  · rw [List.eq_of_mem_replicate hzero] at hsep
    cases hsep
  · rw [Nat.isDigit_of_mem_toDigits (by decide) (by decide) hdigit] at hsep
    cases hsep

section Separator

variable {α : Type u} {sep : α}

theorem append_cons_inj : ∀ {xs ys as bs : List α}, sep ∉ xs → sep ∉ ys →
    xs ++ sep :: as = ys ++ sep :: bs → xs = ys ∧ as = bs
  | [], [], _, _, _, _, h => ⟨rfl, (List.cons.inj h).2⟩
  | [], y :: _, _, _, _, hys, h => absurd (List.mem_cons.2 (Or.inl (List.cons.inj h).1)) hys
  | x :: _, [], _, _, hxs, _, h => absurd (List.mem_cons.2 (Or.inl (List.cons.inj h).1.symm)) hxs
  | x :: xs, y :: ys, as, bs, hxs, hys, h => by
    obtain ⟨rfl, hrest⟩ := List.cons.inj h
    obtain ⟨rfl, rfl⟩ := append_cons_inj (fun hmem => hxs (List.mem_cons_of_mem _ hmem))
      (fun hmem => hys (List.mem_cons_of_mem _ hmem)) hrest
    exact ⟨rfl, rfl⟩

theorem append_cons_inj_right {xs ys as bs : List α} (has : sep ∉ as) (hbs : sep ∉ bs)
    (h : xs ++ sep :: as = ys ++ sep :: bs) : xs = ys ∧ as = bs := by
  have hrev := congrArg List.reverse h
  simp only [List.reverse_append, List.reverse_cons, List.append_assoc, List.singleton_append] at hrev
  obtain ⟨hfirst, hsecond⟩ := append_cons_inj (by simpa using has) (by simpa using hbs) hrev
  exact ⟨List.reverse_injective hsecond, List.reverse_injective hfirst⟩

end Separator

end Digits
