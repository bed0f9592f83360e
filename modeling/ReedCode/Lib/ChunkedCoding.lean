import Mathlib.Data.List.Basic

/-!
# The chunked transfer coding

The grammar of RFC 9112, section 7.1, over bytes and without trailers.  What a hexadecimal digit is
and which number digits write are parameters.

* `ChunkExt`, `SizeLine` — chunk extensions, and the line in front of a chunk.
* `Message` — a stream that starts with a message: its size lines, its data and what follows it.
* `SizeLine.shape` — what stands in a size line in front of the first semicolon.
-/

set_option autoImplicit false

namespace ChunkedCoding

def crlf : List UInt8 := [13, 10]

/-! ## Extensions -/

/-- Space and tab. -/
def isBlank (b : UInt8) : Bool := b == 32 || b == 9

def isAlphanumeric (b : UInt8) : Bool :=
  (48 ≤ b && b ≤ 57) || (65 ≤ b && b ≤ 90) || (97 ≤ b && b ≤ 122)

/-- The bytes of a token. -/
def isTchar (b : UInt8) : Bool :=
  isAlphanumeric b ||
    [33, 35, 36, 37, 38, 39, 42, 43, 45, 46, 94, 95, 96, 124, 126].contains b

/-- What stands in a quoted string as it is. -/
def isQdtext (b : UInt8) : Bool := isBlank b || (33 ≤ b && b != 34 && b != 92 && b != 127)

/-- What stands in a quoted string behind a backslash. -/
def isQuotable (b : UInt8) : Bool := isBlank b || (33 ≤ b && b != 127)

def Blank (bytes : List UInt8) : Prop := ∀ b ∈ bytes, isBlank b = true

def Token (bytes : List UInt8) : Prop := bytes ≠ [] ∧ ∀ b ∈ bytes, isTchar b = true

/-- What stands between the quotes. -/
inductive Quoted : List UInt8 → Prop where
  | nil : Quoted []
  | text {b : UInt8} {bytes : List UInt8} : isQdtext b = true → Quoted bytes → Quoted (b :: bytes)
  | pair {b : UInt8} {bytes : List UInt8} : isQuotable b = true → Quoted bytes →
      Quoted (92 :: b :: bytes)

/-- The value of an extension. -/
inductive ExtValue : List UInt8 → Prop where
  | token {bytes : List UInt8} : Token bytes → ExtValue bytes
  | quoted {bytes : List UInt8} : Quoted bytes → ExtValue (34 :: (bytes ++ [34]))

inductive ChunkExt : List UInt8 → Prop where
  | nil : ChunkExt []
  | name {w w' name rest : List UInt8} : Blank w → Blank w' → Token name → ChunkExt rest →
      ChunkExt (w ++ 59 :: (w' ++ name ++ rest))
  | value {w w' name v v' value rest : List UInt8} : Blank w → Blank w' → Token name → Blank v →
      Blank v' → ExtValue value → ChunkExt rest →
      ChunkExt (w ++ 59 :: (w' ++ name ++ v ++ 61 :: (v' ++ value ++ rest)))

/-- An extension stands behind a semicolon. -/
theorem ChunkExt.shape {ext : List UInt8} (h : ChunkExt ext) :
    ext = [] ∨ ∃ w rest, Blank w ∧ ext = w ++ 59 :: rest := by
  cases h with
  | nil => exact .inl rfl
  | name hw _ _ _ => exact .inr ⟨_, _, hw, rfl⟩
  | value hw _ _ _ _ _ _ => exact .inr ⟨_, _, hw, rfl⟩

section LineFeed

theorem lineFeed_of_all {p : UInt8 → Bool} (hp : p 10 = false) {bytes : List UInt8}
    (h : ∀ b ∈ bytes, p b = true) : 10 ∉ bytes := fun hmem => by
  rw [h 10 hmem] at hp
  cases hp

theorem Blank.lineFeed {bytes : List UInt8} (h : Blank bytes) : 10 ∉ bytes :=
  lineFeed_of_all (by decide) h

theorem Token.lineFeed {bytes : List UInt8} (h : Token bytes) : 10 ∉ bytes :=
  lineFeed_of_all (by decide) h.2

theorem Quoted.lineFeed {bytes : List UInt8} (h : Quoted bytes) : 10 ∉ bytes := by
  induction h with
  | nil => exact List.not_mem_nil
  | text hb _ ih =>
    rw [List.mem_cons, not_or]
    exact ⟨by rintro rfl; exact absurd hb (by decide), ih⟩
  | pair hb _ ih =>
    rw [List.mem_cons, List.mem_cons, not_or, not_or]
    exact ⟨by decide, by rintro rfl; exact absurd hb (by decide), ih⟩

theorem ExtValue.lineFeed {bytes : List UInt8} (h : ExtValue bytes) : 10 ∉ bytes := by
  cases h with
  | token h => exact h.lineFeed
  | quoted h => simp [h.lineFeed]

/-- No line ends inside extensions. -/
theorem ChunkExt.lineFeed {ext : List UInt8} (h : ChunkExt ext) : 10 ∉ ext := by
  induction h with
  | nil => exact List.not_mem_nil
  | name hw hw' hname _ ih => simp [hw.lineFeed, hw'.lineFeed, hname.lineFeed, ih]
  | value hw hw' hname hv hv' hvalue _ ih =>
    simp [hw.lineFeed, hw'.lineFeed, hname.lineFeed, hv.lineFeed, hv'.lineFeed, hvalue.lineFeed, ih]

end LineFeed

/-! ## Messages -/

section Messages

variable (isHex : UInt8 → Bool) (number : List UInt8 → Nat)

/-- The line in front of a chunk of `n` bytes. -/
def SizeLine (line : List UInt8) (n : Nat) : Prop :=
  ∃ digits ext, line = digits ++ ext ++ crlf ∧ digits ≠ [] ∧ (∀ b ∈ digits, isHex b = true) ∧
    ChunkExt ext ∧ number digits = n

/-- A stream that starts with a message of these size lines and these data, and its rest. -/
inductive Message : List (List UInt8) → List UInt8 → List UInt8 → List UInt8 → Prop where
  | last {line rest : List UInt8} : SizeLine isHex number line 0 →
      Message [line] (line ++ (crlf ++ rest)) [] rest
  | chunk {line data stream body rest : List UInt8} {lines : List (List UInt8)} :
      SizeLine isHex number line data.length → data ≠ [] → Message lines stream body rest →
      Message (line :: lines) (line ++ (data ++ (crlf ++ stream))) (data ++ body) rest

variable {isHex number}

/-- A size line ends at its first line feed. -/
theorem SizeLine.lineFeed (hhex : isHex 10 = false) {line : List UInt8} {n : Nat}
    (h : SizeLine isHex number line n) : ∃ front, line = front ++ [10] ∧ 10 ∉ front := by
  obtain ⟨digits, ext, rfl, -, hdigits, hext, -⟩ := h
  refine ⟨digits ++ ext ++ [13], by simp [crlf], ?_⟩
  simp [lineFeed_of_all hhex hdigits, hext.lineFeed]

/-- In front of its first semicolon a size line has its digits and then only space. -/
theorem SizeLine.shape (hhex : isHex 59 = false) {line : List UInt8} {n : Nat}
    (h : SizeLine isHex number line n) : ∃ digits space,
      line.takeWhile (· ≠ 59) = digits ++ space ∧ digits ≠ [] ∧ (∀ b ∈ digits, isHex b = true) ∧
        (space = crlf ∨ Blank space) ∧ number digits = n := by
  obtain ⟨digits, ext, rfl, hne, hdigits, hext, hn⟩ := h
  have hfront : ∀ b ∈ digits, decide (b ≠ 59) = true := by
    intro b hb
    rw [decide_eq_true_eq]
    rintro rfl
    rw [hdigits 59 hb] at hhex
    cases hhex
  refine ⟨digits, (ext ++ crlf).takeWhile (· ≠ 59), ?_, hne, hdigits, ?_, hn⟩
  · rw [List.append_assoc, List.takeWhile_append_of_pos hfront]
  · rcases hext.shape with rfl | ⟨w, rest, hw, rfl⟩
    · exact .inl (by decide)
    · right
      have hblank : ∀ b ∈ w, decide (b ≠ 59) = true := by
        intro b hb
        rw [decide_eq_true_eq]
        rintro rfl
        exact absurd (hw 59 hb) (by decide)
      rw [List.append_assoc, List.takeWhile_append_of_pos hblank, List.cons_append,
        List.takeWhile_cons_of_neg (by decide), List.append_nil]
      exact hw

theorem SizeLine.head {line : List UInt8} {n : Nat} (h : SizeLine isHex number line n) :
    ∃ b front, line = b :: front ∧ isHex b = true := by
  obtain ⟨digits, ext, rfl, hne, hdigits, -, -⟩ := h
  cases digits with
  | nil => exact absurd rfl hne
  | cons b digits => exact ⟨b, _, rfl, hdigits b (List.mem_cons_self ..)⟩

/-- A message starts with a digit. -/
theorem Message.head {lines : List (List UInt8)} {stream data rest : List UInt8}
    (h : Message isHex number lines stream data rest) :
    ∃ b front, stream = b :: front ∧ isHex b = true := by
  cases h with
  | last hline | chunk hline _ _ =>
    obtain ⟨b, front, rfl, hb⟩ := hline.head
    exact ⟨b, _, rfl, hb⟩

end Messages

end ChunkedCoding
