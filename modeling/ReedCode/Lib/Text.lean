import Mathlib.Data.List.Basic
import Mathlib.Data.List.Infix

/-!
# Searching in text

Search for a pattern in a list of characters: the first occurrence, the last one, all of them.

* `splitOnce_eq_some`, `splitOnce_first` — the text around the first occurrence, which stands no
  later than any other;
* `throughLast_eq_some` — the text up to the end of the last occurrence;
* `splitOn_nil`, `splitOn_append`, `splitOn_cons` — splitting, character by character.
-/

set_option autoImplicit false

universe u

namespace Text

variable {α : Type u} [DecidableEq α]

/-- The text in front of the first occurrence and the text behind it. -/
def splitOnce (pat : List α) : List α → Option (List α × List α)
  | [] => if pat = [] then some ([], []) else none
  | c :: cs =>
    if pat <+: c :: cs then some ([], (c :: cs).drop pat.length)
    else (splitOnce pat cs).map fun around => (c :: around.1, around.2)

/-- The text up to the end of the last occurrence. -/
def throughLast (pat text : List α) : Option (List α) :=
  (splitOnce pat.reverse text.reverse).map fun around => around.2.reverse ++ pat

def splitFrom (pat : List α) : Nat → List α → List (List α)
  | 0, text => [text]
  | fuel + 1, text =>
    match splitOnce pat text with
    | none => [text]
    | some (before, after) => before :: splitFrom pat fuel after

/-- The pieces of a text between the occurrences of a nonempty pattern. -/
def splitOn (pat text : List α) : List (List α) := splitFrom pat text.length text

/-- The number of occurrences that do not overlap. -/
def count (pat text : List α) : Nat := (splitOn pat text).length - 1

def contains (pat text : List α) : Bool := (splitOnce pat text).isSome

/-- Strip one character from the front. -/
def trimStart (c : α) (text : List α) : List α := text.dropWhile (· = c)

/-- Strip one character from the end. -/
def trimEnd (c : α) (text : List α) : List α := (trimStart c text.reverse).reverse

def trim (c : α) (text : List α) : List α := trimEnd c (trimStart c text)

variable {pat : List α}

theorem splitOnce_eq_some {after : List α} : ∀ {text before : List α},
    splitOnce pat text = some (before, after) → text = before ++ (pat ++ after)
  | [], before, h => by
    unfold splitOnce at h
    split at h
    · rename_i hpat
      cases h
      rw [hpat]
      rfl
    · cases h
  | c :: cs, before, h => by
    unfold splitOnce at h
    split at h
    · rename_i hpat
      cases h
      exact (List.prefix_iff_eq_append.1 hpat).symm
    · obtain ⟨⟨before', after'⟩, hrest, heq⟩ := Option.map_eq_some_iff.1 h
      cases heq
      rw [List.cons_append, ← splitOnce_eq_some hrest]

/-- An occurrence is found no later than where it stands. -/
theorem splitOnce_first {text after : List α} : ∀ {front before : List α},
    splitOnce pat (front ++ (pat ++ text)) = some (before, after) → before <+: front
  | [], before, h => by
    have hfront : ∀ {s : List α}, pat <+: s → splitOnce pat s = some (before, after) →
        before = [] := by
      intro s hs h
      cases s with
      | nil =>
        rw [splitOnce, if_pos (List.prefix_nil.1 hs)] at h
        cases h
        rfl
      | cons c cs =>
        rw [splitOnce, if_pos hs] at h
        cases h
        rfl
    rw [hfront (List.prefix_append pat text) h]
  | c :: front, before, h => by
    rw [List.cons_append, splitOnce] at h
    split at h
    · cases h
      exact List.nil_prefix
    · obtain ⟨⟨before', after'⟩, hrest, heq⟩ := Option.map_eq_some_iff.1 h
      cases heq
      exact (List.prefix_cons_inj c).2 (splitOnce_first hrest)

theorem throughLast_eq_some {text upto : List α} (h : throughLast pat text = some upto) :
    upto <+: text ∧ pat <:+ upto := by
  obtain ⟨⟨before, after⟩, hsplit, rfl⟩ := Option.map_eq_some_iff.1 h
  have htext := congrArg List.reverse (splitOnce_eq_some hsplit)
  rw [List.reverse_reverse, List.reverse_append, List.reverse_append, List.reverse_reverse] at htext
  exact ⟨htext ▸ List.prefix_append _ _, List.suffix_append _ _⟩

/-! ## Splitting -/

theorem splitOnce_nil (hpat : pat ≠ []) : splitOnce pat [] = none := if_neg hpat

theorem splitOnce_length {text before after : List α} (hpat : pat ≠ [])
    (h : splitOnce pat text = some (before, after)) : after.length < text.length := by
  have hpos := List.length_pos_iff.2 hpat
  rw [splitOnce_eq_some h, List.length_append, List.length_append]
  omega

theorem splitFrom_nil (hpat : pat ≠ []) : ∀ fuel : Nat, splitFrom pat fuel [] = [[]]
  | 0 => rfl
  | fuel + 1 => by rw [splitFrom, splitOnce_nil hpat]

/-- Any two amounts of fuel that are enough come to the same. -/
theorem splitFrom_congr (hpat : pat ≠ []) {fuel fuel' : Nat} {text : List α}
    (h : text.length ≤ fuel) (h' : text.length ≤ fuel') :
    splitFrom pat fuel text = splitFrom pat fuel' text := by
  induction fuel generalizing fuel' text with
  | zero =>
    rw [List.length_eq_zero_iff.1 (Nat.le_zero.1 h), splitFrom_nil hpat, splitFrom_nil hpat]
  | succ fuel ih =>
    cases fuel' with
    | zero =>
      rw [List.length_eq_zero_iff.1 (Nat.le_zero.1 h'), splitFrom_nil hpat, splitFrom_nil hpat]
    | succ fuel' =>
      rw [splitFrom, splitFrom]
      cases hsplit : splitOnce pat text with
      | none => rfl
      | some around =>
        have hlen : around.2.length < text.length := splitOnce_length hpat hsplit
        exact congrArg (around.1 :: ·) (ih (by omega) (by omega))

/-- Enough fuel is enough. -/
theorem splitFrom_eq (hpat : pat ≠ []) {fuel : Nat} {text : List α} (h : text.length ≤ fuel) :
    splitFrom pat fuel text = splitOn pat text :=
  splitFrom_congr hpat h (Nat.le_refl _)

theorem splitOn_eq (hpat : pat ≠ []) (text : List α) : splitOn pat text =
    match splitOnce pat text with
    | none => [text]
    | some (before, after) => before :: splitOn pat after := by
  cases text with
  | nil =>
    rw [splitOnce_nil hpat]
    rfl
  | cons c cs =>
    rw [splitOn, List.length_cons, splitFrom]
    cases hsplit : splitOnce pat (c :: cs) with
    | none => rfl
    | some around =>
      have hlen := @splitOnce_length _ _ _ _ around.1 around.2 hpat hsplit
      rw [List.length_cons] at hlen
      simp only
      rw [splitFrom_eq hpat (by omega)]

@[simp] theorem splitOn_nil : splitOn pat ([] : List α) = [[]] := rfl

/-- An occurrence in front ends an empty piece. -/
theorem splitOn_append (hpat : pat ≠ []) (text : List α) :
    splitOn pat (pat ++ text) = [] :: splitOn pat text := by
  have hfront : splitOnce pat (pat ++ text) = some ([], text) := by
    cases hall : pat ++ text with
    | nil => exact absurd (List.append_eq_nil_iff.1 hall).1 hpat
    | cons c cs =>
      rw [splitOnce, ← hall, if_pos (List.prefix_append pat text), List.drop_left]
  rw [splitOn_eq hpat, hfront]

/-- A character that begins no occurrence belongs to the first piece. -/
theorem splitOn_cons (hpat : pat ≠ []) {c : α} {text : List α} (h : ¬ pat <+: c :: text) :
    splitOn pat (c :: text) = (splitOn pat text).modifyHead (c :: ·) := by
  rw [splitOn_eq hpat, splitOnce, if_neg h, splitOn_eq hpat text]
  cases splitOnce pat text with
  | none => rfl
  | some around => rfl

/-- A text in which no occurrence begins belongs to the first piece. -/
theorem splitOn_front {c : α} {rest : List α} : ∀ {front : List α}, c ∉ front → ∀ text,
    splitOn (c :: rest) (front ++ text) = (splitOn (c :: rest) text).modifyHead (front ++ ·)
  | [], _, text => by
    rw [List.nil_append]
    cases splitOn (c :: rest) text <;> rfl
  | a :: front, h, text => by
    rw [List.mem_cons, not_or] at h
    rw [List.cons_append, splitOn_cons (List.cons_ne_nil c rest)
      (fun hprefix => h.1 (List.cons_prefix_cons.1 hprefix).1), splitOn_front h.2]
    cases splitOn (c :: rest) text <;> rfl

end Text
