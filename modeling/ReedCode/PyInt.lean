import ReedCode.PyText

/-!
# Python's integers in text

* `digitRun` — digits with single underscores between them.
* `int10` — `int(text)` of a text whose only decimal digits are the ASCII ones.
* `int16` — `int(bytes, 16)`.
-/

set_option autoImplicit false

universe u

namespace ReedCode.PyInt

section Digits

variable {α : Type u} [DecidableEq α] (isDigit : α → Bool) (underscore : α)

/-- The digits of a number; `afterDigit` says whether a digit stands before the text. -/
def digitRun (afterDigit : Bool) : List α → Option (List α)
  | [] => if afterDigit then some [] else none
  | c :: text =>
    if c = underscore then if afterDigit then digitRun false text else none
    else if isDigit c then (digitRun true text).map (c :: ·)
    else none

variable {isDigit underscore}

/-- Digits without underscores are read as they are. -/
theorem digitRun_digits (hunderscore : isDigit underscore = false) :
    ∀ {afterDigit : Bool} {text : List α}, (∀ c ∈ text, isDigit c = true) →
      (afterDigit = true ∨ text ≠ []) → digitRun isDigit underscore afterDigit text = some text
  | true, [], _, _ => rfl
  | false, [], _, h => absurd rfl (h.resolve_left Bool.false_ne_true)
  | _, c :: text, hdigits, _ => by
    rw [List.forall_mem_cons] at hdigits
    have hc : c ≠ underscore := by
      rintro rfl
      rw [hdigits.1] at hunderscore
      cases hunderscore
    rw [digitRun, if_neg hc, if_pos hdigits.1, digitRun_digits hunderscore hdigits.2 (.inl rfl),
      Option.map_some]

end Digits

/-- What stands between the ends of a text. -/
def stripBy {α : Type u} (isSpace : α → Bool) (text : List α) : List α :=
  ((text.dropWhile isSpace).reverse.dropWhile isSpace).reverse

theorem stripBy_append {α : Type u} {isSpace : α → Bool} {text space : List α}
    (htext : ∀ c ∈ text, isSpace c = false) (hspace : ∀ c ∈ space, isSpace c = true)
    (hne : text ≠ []) : stripBy isSpace (text ++ space) = text := by
  have hdrop : ∀ {xs : List α}, (∀ c ∈ xs, isSpace c = false) → xs ≠ [] → ∀ ys,
      (xs ++ ys).dropWhile isSpace = xs ++ ys := by
    intro xs hxs hxne ys
    cases xs with
    | nil => exact absurd rfl hxne
    | cons x xs =>
      rw [List.cons_append, List.dropWhile_cons_of_neg (by rw [hxs x (List.mem_cons_self ..)]; simp)]
  rw [stripBy, hdrop htext hne, List.reverse_append, List.dropWhile_append_of_pos]
  · have hrev : (text.reverse ++ []).dropWhile isSpace = text.reverse ++ [] :=
      hdrop (by simpa using htext) (by simpa using hne) []
    rw [List.append_nil] at hrev
    rw [hrev, List.reverse_reverse]
  · simpa using hspace

/-- A text without its sign, and whether it is negative. -/
def unsigned {α : Type u} [DecidableEq α] (plus minus : α) : List α → Bool × List α
  | [] => (false, [])
  | c :: text =>
    if c = plus then (false, text) else if c = minus then (true, text) else (false, c :: text)

def signed (negative : Bool) (n : Nat) : Int := if negative then -(n : Int) else n

/-! ## Text -/

/-- What `int` takes for space: not the separators that `str.isspace` also knows. -/
def isIntSpace (c : Char) : Bool := PyText.isSpace c && !(28 ≤ c.toNat && c.toNat ≤ 31)

/-- `int(text)`; more than 4300 digits are refused. -/
def int10 (text : String) : Option Int :=
  let (negative, digits) := unsigned '+' '-' (stripBy isIntSpace text.toList)
  (digitRun Char.isDigit '_' false digits).bind fun digits =>
    if 4300 < digits.length then none else some (signed negative (Nat.ofDigitChars 10 digits 0))

/-! ## Bytes -/

/-- Space, tab, line feed, vertical tab, form feed and carriage return. -/
def isByteSpace (b : UInt8) : Bool := b == 32 || (9 ≤ b && b ≤ 13)

def isHex (b : UInt8) : Bool := (48 ≤ b && b ≤ 57) || (65 ≤ b && b ≤ 70) || (97 ≤ b && b ≤ 102)

def hexValue (b : UInt8) : Nat :=
  if b ≤ 57 then b.toNat - 48 else if b ≤ 70 then b.toNat - 55 else b.toNat - 87

/-- The number that hexadecimal digits write. -/
def hexNumber (digits : List UInt8) : Nat := digits.foldl (fun n b => n * 16 + hexValue b) 0

/-- One underscore may stand behind `0x`. -/
def withoutUnderscore : List UInt8 → List UInt8
  | 95 :: text => text
  | text => text

/-- The digits behind `0x` or `0X`. -/
def withoutPrefix : List UInt8 → List UInt8
  | 48 :: x :: text => if x = 120 ∨ x = 88 then withoutUnderscore text else 48 :: x :: text
  | text => text

/-- `int(bytes, 16)`. -/
def int16 (bytes : List UInt8) : Option Int :=
  let (negative, text) := unsigned 43 45 (stripBy isByteSpace bytes)
  (digitRun isHex 95 false (withoutPrefix text)).map fun digits => signed negative (hexNumber digits)

example : ["0x_1F", " +1_0\n", "-0", "0x", "1__0", "_1", "+ 5"].map
    (fun text => int16 text.toUTF8.toList) =
      [some 31, some 16, some 0, none, none, none, none] := by decide +kernel

theorem withoutPrefix_hex {text : List UInt8} (h : ∀ b ∈ text, isHex b = true) :
    withoutPrefix text = text := by
  have hx : ∀ x, isHex x = true → ¬ (x = 120 ∨ x = 88) := by
    rintro x hx (rfl | rfl) <;> exact absurd hx (by decide)
  unfold withoutPrefix
  split
  · exact if_neg (hx _ (h _ (by simp)))
  · rfl

theorem isByteSpace_hex {b : UInt8} (h : isHex b = true) : isByteSpace b = false := by
  rw [Bool.eq_false_iff]
  intro hspace
  simp only [isHex, isByteSpace, Bool.or_eq_true, Bool.and_eq_true, decide_eq_true_eq, beq_iff_eq,
    UInt8.le_iff_toNat_le, UInt8.reduceToNat, ← UInt8.toNat_inj] at h hspace
  omega

/-- **Hexadecimal digits are read as the number they write**, also before space. -/
theorem int16_hex {digits space : List UInt8} (hhex : ∀ b ∈ digits, isHex b = true)
    (hne : digits ≠ []) (hspace : ∀ b ∈ space, isByteSpace b = true) :
    int16 (digits ++ space) = some (hexNumber digits : Int) := by
  have hstrip := stripBy_append (fun b hb => isByteSpace_hex (hhex b hb)) hspace hne
  have hunsigned : unsigned 43 45 digits = (false, digits) := by
    cases digits with
    | nil => rfl
    | cons b digits =>
      have hb := hhex b (List.mem_cons_self ..)
      rw [unsigned, if_neg (by rintro rfl; exact absurd hb (by decide)),
        if_neg (by rintro rfl; exact absurd hb (by decide))]
  rw [int16, hstrip, hunsigned]
  simp only [withoutPrefix_hex hhex, digitRun_digits (show isHex 95 = false by decide) hhex (.inr hne),
    Option.map_some, signed, Bool.false_eq_true, if_false]

end ReedCode.PyInt
