import ReedCode.Lib.Assembly
import ReedCode.PyValue

/-!
# Deltas of a streamed chat completion

What the readers of chat completion streams share: the text fields of a delta and of a message, and
the fragments of tool calls.
-/

set_option autoImplicit false

namespace ReedCode

/-- The text fields of a delta and of a message. -/
inductive TextKey where
  | content
  | reasoning
  | reasoningContent
  | refusal
  deriving DecidableEq, Repr

def TextKey.all : List TextKey := [.content, .reasoning, .reasoningContent, .refusal]

theorem TextKey.mem_all (key : TextKey) : key ∈ TextKey.all := by cases key <;> decide

/-- The four text fields of a delta; `null` where one is missing. -/
structure DeltaTexts where
  content : Value
  reasoning : Value
  reasoningContent : Value
  refusal : Value
  deriving DecidableEq, Repr

def DeltaTexts.get (d : DeltaTexts) : TextKey → Value
  | .content => d.content
  | .reasoning => d.reasoning
  | .reasoningContent => d.reasoningContent
  | .refusal => d.refusal

def DeltaTexts.none : DeltaTexts := ⟨.null, .null, .null, .null⟩

/-- The text fields of a message; `content` is `None` where no text came, the others are missing. -/
structure MessageTexts where
  content : Option String
  reasoning : Option String
  reasoningContent : Option String
  refusal : Option String
  deriving DecidableEq, Repr

def MessageTexts.get (m : MessageTexts) : TextKey → Option String
  | .content => m.content
  | .reasoning => m.reasoning
  | .reasoningContent => m.reasoningContent
  | .refusal => m.refusal

@[ext]
theorem MessageTexts.ext_get {m m' : MessageTexts} (h : ∀ key, m.get key = m'.get key) : m = m' := by
  obtain ⟨a, b, c, d⟩ := m
  obtain ⟨a', b', c', d'⟩ := m'
  obtain rfl : a = a' := h .content
  obtain rfl : b = b' := h .reasoning
  obtain rfl : c = c' := h .reasoningContent
  obtain rfl : d = d' := h .refusal
  rfl

/-- The message that has what a dictionary holds. -/
def messageTexts (texts : FinMap TextKey String) : MessageTexts :=
  ⟨texts.get? .content, texts.get? .reasoning, texts.get? .reasoningContent, texts.get? .refusal⟩

@[simp] theorem get_messageTexts (texts : FinMap TextKey String) (key : TextKey) :
    (messageTexts texts).get key = texts.get? key := by cases key <;> rfl

/-- The text of a field, if it is one. -/
def DeltaTexts.text? (d : DeltaTexts) (key : TextKey) : Option String :=
  match d.get key with
  | .str s => some s
  | _ => Option.none

/-- The pieces of text of a delta, in the order of the fields. -/
def DeltaTexts.pieces (d : DeltaTexts) : List (TextKey × String) :=
  TextKey.all.filterMap fun key => (d.text? key).map (key, ·)

theorem textsAt_pieces (d : DeltaTexts) (key : TextKey) :
    Assembly.textsAt key d.pieces = (d.text? key).toList := by
  have hall : ∀ keys : List TextKey, keys.Nodup →
      Assembly.textsAt key (keys.filterMap fun key => (d.text? key).map (key, ·)) =
        if key ∈ keys then (d.text? key).toList else [] := by
    intro keys
    induction keys with
    | nil => exact fun _ => rfl
    | cons k keys ih =>
      intro hnodup
      rw [List.nodup_cons] at hnodup
      cases hk : d.text? k with
      | none =>
        rw [List.filterMap_cons_none (by rw [hk]; rfl), ih hnodup.2]
        by_cases he : key = k
        · rw [if_neg (he ▸ hnodup.1), if_pos (by simp [he]), he, hk]
          rfl
        · simp [he]
      | some s =>
        rw [List.filterMap_cons_some (by rw [hk]; rfl), Assembly.textsAt_cons, ih hnodup.2]
        by_cases he : k = key
        · rw [if_pos he, if_neg (he ▸ hnodup.1), if_pos (by simp [he]), ← he, hk]
          rfl
        · simp [he, Ne.symm he]
  rw [DeltaTexts.pieces, hall TextKey.all (by decide), if_pos (TextKey.mem_all key)]

end ReedCode
