import Mathlib.Data.List.Nodup
import Mathlib.Logic.Relation

/-!
# Lines of a text file

* `splitlines` — Python's `str.splitlines`; `splitlines_flatten` reads back what was written line
  by line.
* `Edit` — a line is deleted, written twice, or two lines change places.
-/

set_option autoImplicit false

namespace ReedCode.Lines

universe u

/-! ## Splitting -/

/-- The characters that end a line. -/
def lineBreak (c : Char) : Bool :=
  c == '\n' || c == '\r' || c == '\x0b' || c == '\x0c' || c == '\x1c' || c == '\x1d' ||
    c == '\x1e' || c == '\u0085' || c == '\u2028' || c == '\u2029'

/-- No character of the text ends a line. -/
def Whole (text : List Char) : Prop := ∀ c ∈ text, lineBreak c = false

instance : DecidablePred Whole := fun text =>
  List.decidableBAll (fun c => lineBreak c = false) text

/-- The lines of a text behind the line that has begun; a `\n` just behind a `\r` ends no line of
its own. -/
def splitFrom : Bool → List Char → List Char → List (List Char)
  | _, line, [] => if line.isEmpty then [] else [line]
  | behindCr, line, c :: text =>
    if behindCr && c == '\n' then splitFrom false line text
    else if lineBreak c then line :: splitFrom (c == '\r') [] text
    else splitFrom false (line ++ [c]) text

def splitlines (text : List Char) : List (List Char) := splitFrom false [] text

example : splitlines ['a', '\r', '\n', '\n', 'b'] = [['a'], [], ['b']] := by decide

/-- A line is read up to the character that ends it. -/
theorem splitFrom_break {c : Char} (hc : lineBreak c = true) {text : List Char} :
    ∀ {rest line : List Char}, (∀ c ∈ rest, lineBreak c = false) →
      splitFrom false line (rest ++ c :: text) = (line ++ rest) :: splitFrom (c == '\r') [] text
  | [], line, _ => by
    rw [List.nil_append, List.append_nil, splitFrom, Bool.false_and, if_neg Bool.false_ne_true,
      if_pos hc]
  | c' :: rest, line, h => by
    have hc' : lineBreak c' = false := h c' List.mem_cons_self
    rw [List.cons_append, splitFrom, Bool.false_and, if_neg Bool.false_ne_true, hc',
      if_neg Bool.false_ne_true, splitFrom_break hc fun d hd => h d (List.mem_cons_of_mem c' hd)]
    simp

theorem splitFrom_line {text rest line : List Char} (h : ∀ c ∈ rest, lineBreak c = false) :
    splitFrom false line (rest ++ '\n' :: text) = (line ++ rest) :: splitFrom false [] text :=
  splitFrom_break rfl h

/-- The last line, which nothing ends. -/
theorem splitFrom_last : ∀ {rest line : List Char}, (∀ c ∈ rest, lineBreak c = false) →
    line ++ rest ≠ [] → splitFrom false line rest = [line ++ rest]
  | [], line, _, hne => by
    rw [List.append_nil] at hne ⊢
    rw [splitFrom, if_neg (by simpa using hne)]
  | c :: rest, line, h, _ => by
    have hc : lineBreak c = false := h c List.mem_cons_self
    rw [splitFrom, Bool.false_and, if_neg Bool.false_ne_true, hc, if_neg Bool.false_ne_true,
      splitFrom_last (fun d hd => h d (List.mem_cons_of_mem c hd)) (by simp), List.append_assoc,
      List.singleton_append]

/-- **What was written line by line is read back.** -/
theorem splitlines_flatten : ∀ {lines : List (List Char)},
    (∀ line ∈ lines, ∀ c ∈ line, lineBreak c = false) →
      splitlines (lines.map (· ++ ['\n'])).flatten = lines
  | [], _ => rfl
  | line :: lines, h => by
    rw [List.map_cons, List.flatten_cons, List.append_assoc, List.singleton_append, splitlines,
      splitFrom_line (h line List.mem_cons_self), List.nil_append]
    exact congrArg _ (splitlines_flatten fun line' hline => h line' (List.mem_cons_of_mem _ hline))

/-- No line holds a character that ends one. -/
theorem lineBreak_of_mem_splitFrom : ∀ {text : List Char} {behindCr : Bool} {line : List Char},
    (∀ c ∈ line, lineBreak c = false) →
      ∀ l ∈ splitFrom behindCr line text, ∀ c ∈ l, lineBreak c = false
  | [], behindCr, line, h => by
    rw [splitFrom]
    split
    · simp
    · intro l hl
      rw [List.mem_singleton.1 hl]
      exact h
  | c :: text, behindCr, line, h => by
    rw [splitFrom]
    split
    · exact lineBreak_of_mem_splitFrom h
    · split
      · intro l hl
        rcases List.mem_cons.1 hl with rfl | hl
        · exact h
        · exact lineBreak_of_mem_splitFrom (fun d hd => by cases hd) l hl
      · rename_i hc
        refine lineBreak_of_mem_splitFrom fun d hd => ?_
        rcases List.mem_append.1 hd with hd | hd
        · exact h d hd
        · rw [List.mem_singleton.1 hd]
          simpa using hc

theorem lineBreak_of_mem_splitlines {text line : List Char} (h : line ∈ splitlines text) :
    ∀ c ∈ line, lineBreak c = false :=
  lineBreak_of_mem_splitFrom (fun c hc => by cases hc) line h

/-- Nothing in front of a `\n` changes the lines behind it. -/
theorem splitFrom_append {rest : List Char} : ∀ {text : List Char} {behindCr : Bool}
    {line : List Char}, (behindCr = true → line = []) →
      splitFrom behindCr line (text ++ '\n' :: rest) =
        splitFrom behindCr line (text ++ ['\n']) ++ splitlines rest
  | [], true, line, h => by
    obtain rfl := h rfl
    rfl
  | [], false, line, _ => rfl
  | c :: text, behindCr, line, h => by
    rw [List.cons_append, List.cons_append, splitFrom, splitFrom]
    split
    · exact splitFrom_append (by simp)
    · split
      · rw [splitFrom_append (by simp), List.cons_append]
      · exact splitFrom_append (by simp)

theorem splitlines_append (text rest : List Char) :
    splitlines (text ++ '\n' :: rest) = splitlines (text ++ ['\n']) ++ splitlines rest :=
  splitFrom_append (by simp)

/-! ## Edits -/

section Edit

variable {α : Type u}

inductive Edit : List α → List α → Prop where
  | delete (before : List α) (line : α) (after : List α) :
      Edit (before ++ line :: after) (before ++ after)
  | duplicate (before : List α) (line : α) (after : List α) (h : line ∈ before ++ after) :
      Edit (before ++ after) (before ++ line :: after)
  | swap (before : List α) (a : α) (middle : List α) (b : α) (after : List α) :
      Edit (before ++ a :: (middle ++ b :: after)) (before ++ b :: (middle ++ a :: after))

/-- An edit brings no line of its own. -/
theorem Edit.mem {lines lines' : List α} (h : Edit lines lines') {line : α} (hline : line ∈ lines') :
    line ∈ lines := by
  cases h with
  | delete before line' after =>
    simp only [List.mem_append, List.mem_cons] at hline ⊢
    tauto
  | duplicate before line' after h =>
    simp only [List.mem_append, List.mem_cons] at hline h ⊢
    rcases hline with hline | rfl | hline
    · exact .inl hline
    · exact h
    · exact .inr hline
  | swap before a middle b after =>
    simp only [List.mem_append, List.mem_cons] at hline ⊢
    tauto

theorem Edit.mem_of_edits {lines lines' : List α} (h : Relation.ReflTransGen Edit lines lines')
    {line : α} (hline : line ∈ lines') : line ∈ lines := by
  induction h with
  | refl => exact hline
  | tail _ hedit ih => exact ih (hedit.mem hline)

/-- One edit changes lines that are all different. -/
theorem Edit.ne {lines lines' : List α} (h : Edit lines lines') (hnodup : lines.Nodup) :
    lines' ≠ lines := by
  cases h with
  | delete before line after =>
    intro heq
    simpa using congrArg List.length heq
  | duplicate before line after _ =>
    intro heq
    simpa using congrArg List.length heq
  | swap before a middle b after =>
    intro heq
    obtain rfl : b = a := (List.cons.inj (List.append_cancel_left heq)).1
    have htail := (List.nodup_append.1 hnodup).2.1
    exact (List.nodup_cons.1 htail).1 (List.mem_append_right _ List.mem_cons_self)

end Edit

end ReedCode.Lines
