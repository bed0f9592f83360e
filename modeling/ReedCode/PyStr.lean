import Mathlib.Data.List.Basic
import Mathlib.Data.Nat.Basic

/-!
# Python's texts

A `str` is a list of code points, and surrogates may stand in it alone: `json.loads` returns such
texts, and UTF-8 has no bytes for them.

* `Clean` — a text without surrogates; `clean_lit`, `clean_append` — texts of which that is known.
* `encode`, `encode_ok_iff` — `text.encode("utf-8")`.
-/

set_option autoImplicit false

namespace ReedCode

abbrev Str := List Nat

namespace Str

/-- A text without surrogates, as it stands in the source. -/
def lit (text : String) : Str := text.toList.map Char.toNat

def isSurrogate (c : Nat) : Bool := 0xD800 ≤ c && c ≤ 0xDFFF

def Clean (text : Str) : Prop := ∀ c ∈ text, isSurrogate c = false

instance : DecidablePred Clean := fun text =>
  inferInstanceAs (Decidable (∀ c ∈ text, isSurrogate c = false))

/-- `str.isspace` of one character. -/
def isSpace (n : Nat) : Bool :=
  (9 ≤ n && n ≤ 13) || (28 ≤ n && n ≤ 32) || n == 0x85 || n == 0xA0 || n == 0x1680 ||
    (0x2000 ≤ n && n ≤ 0x200A) || n == 0x2028 || n == 0x2029 || n == 0x202F || n == 0x205F ||
    n == 0x3000

/-- `not text.strip()`. -/
def blank (text : Str) : Bool := text.all isSpace

/-! ## UTF-8 -/

def utf8Bytes (c : Nat) : List UInt8 :=
  if c < 0x80 then [UInt8.ofNat c]
  else if c < 0x800 then [UInt8.ofNat (0xC0 + c / 64), UInt8.ofNat (0x80 + c % 64)]
  else if c < 0x10000 then
    [UInt8.ofNat (0xE0 + c / 4096), UInt8.ofNat (0x80 + c / 64 % 64), UInt8.ofNat (0x80 + c % 64)]
  else
    [UInt8.ofNat (0xF0 + c / 262144), UInt8.ofNat (0x80 + c / 4096 % 64),
      UInt8.ofNat (0x80 + c / 64 % 64), UInt8.ofNat (0x80 + c % 64)]

def number (n : Nat) : Str := lit (toString n)

/-- `str(error)` of the `UnicodeEncodeError` of a text: its first run of surrogates. -/
def encodeError (text : Str) : Str :=
  let first := text.findIdx isSurrogate
  let run := (text.drop first).takeWhile isSurrogate
  match run with
  | [c] => lit "'utf-8' codec can't encode character '\\u" ++
      lit (String.ofList (Nat.toDigits 16 c)) ++ lit "' in position " ++ number first ++
      lit ": surrogates not allowed"
  | _ => lit "'utf-8' codec can't encode characters in position " ++ number first ++ lit "-" ++
      number (first + run.length - 1) ++ lit ": surrogates not allowed"

/-- `text.encode("utf-8")`, or what the error says. -/
def encode (text : Str) : Except Str (List UInt8) :=
  if Clean text then .ok (text.flatMap utf8Bytes) else .error (encodeError text)

/-! ## Clean texts -/

theorem isSurrogate_toNat (c : Char) : isSurrogate c.toNat = false := by
  have hvalid := c.valid
  rw [isSurrogate, Bool.and_eq_false_iff, decide_eq_false_iff_not, decide_eq_false_iff_not]
  rcases hvalid with h | ⟨h, -⟩
  · exact .inl (Nat.not_le.2 h)
  · exact .inr (Nat.not_le.2 h)

/-- Texts of the source are clean. -/
theorem clean_lit (text : String) : Clean (lit text) := by
  intro c hc
  obtain ⟨char, -, rfl⟩ := List.mem_map.1 hc
  exact isSurrogate_toNat char

theorem clean_append {a b : Str} : Clean (a ++ b) ↔ Clean a ∧ Clean b := by
  rw [Clean, Clean, Clean, List.forall_mem_append]

theorem clean_lit_append {text : String} {b : Str} : Clean (lit text ++ b) ↔ Clean b := by
  rw [clean_append]
  exact and_iff_right (clean_lit text)

theorem Clean.subset {a b : Str} (h : Clean b) (hsub : a ⊆ b) : Clean a := fun c hc => h c (hsub hc)

theorem clean_encodeError (text : Str) : Clean (encodeError text) := by
  simp only [encodeError]
  split <;> simp only [clean_append, number, clean_lit, and_self]

theorem encode_ok_iff {text : Str} : (∃ bytes, encode text = .ok bytes) ↔ Clean text := by
  rw [encode]
  split
  · rename_i h
    exact iff_of_true ⟨_, rfl⟩ h
  · rename_i h
    exact iff_of_false (fun hok => by obtain ⟨_, hok⟩ := hok; cases hok) h

end Str

end ReedCode
