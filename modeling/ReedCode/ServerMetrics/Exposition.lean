import ReedCode.Lib.Descendants
import ReedCode.Lib.Runs
import ReedCode.ServerMetrics.Parse

/-!
# The exposition format

* `Sample.render`, `render` — samples and comments as lines of the text format.
* `readSample_render` — a line is read back as the series it gives.
* `readSample_chars` — what is read off a line holds characters of the line, or a line feed.
-/

set_option autoImplicit false

namespace ReedCode.ServerMetrics

open ReedCode.PyText

/-! ## Rendering -/

def escapeChar (c : Char) : Text :=
  if c = '\x5c' then ['\x5c', '\x5c']
  else if c = '\x22' then ['\x5c', '\x22']
  else if c = '\n' then ['\x5c', 'n']
  else [c]

/-- Backslash, double quote and line feed are escaped. -/
def escape (text : Text) : Text := text.flatMap escapeChar

def renderLabel (l : Text × Text) : Text := l.1 ++ '=' :: '\x22' :: (escape l.2 ++ ['\x22'])

def renderLabels (trailing : Bool) : Labels → Text
  | [] => []
  | [l] => renderLabel l ++ if trailing then [','] else []
  | l :: m :: labels => renderLabel l ++ ',' :: renderLabels trailing (m :: labels)

structure Sample where
  name : Text
  labels : Labels
  value : Text
  timestamp : Option Text
  trailing : Bool
  braces : Bool

namespace Sample

/-- Value and timestamp. -/
def numbers (s : Sample) : Text :=
  s.value ++ match s.timestamp with
    | none => []
    | some timestamp => ' ' :: timestamp

def render (s : Sample) : Text :=
  if s.labels = [] ∧ s.braces = false then s.name ++ ' ' :: s.numbers
  else s.name ++ '\x7b' :: (renderLabels s.trailing s.labels ++ '\x7d' :: ' ' :: s.numbers)

end Sample

/-- A sample, or a comment behind its `#`. -/
inductive Line where
  | sample (s : Sample)
  | comment (text : Text)

def Line.render : Line → Text
  | .sample s => s.render
  | .comment text => '#' :: text

/-- One line for each sample and comment, ended by a line feed. -/
def render (lines : List Line) : Text := (lines.map fun l => l.render ++ ['\n']).flatten

/-! ## Well-formed lines -/

def ValidLabel (name : Text) : Prop :=
  ∃ c rest, name = c :: rest ∧ labelStart c = true ∧ ∀ d ∈ rest, labelChar d = true

def ValidName (name : Text) : Prop :=
  ∃ c rest, name = c :: rest ∧ nameStart c = true ∧ ∀ d ∈ rest, nameChar d = true

/-- A number without blanks and braces. -/
def ValidNumber (text : Text) : Prop := text ≠ [] ∧ ∀ c ∈ text, isSpace c = false ∧ c ≠ '\x7d'

instance : DecidablePred ValidNumber := fun text =>
  have := List.decidableBAll (fun c => isSpace c = false ∧ c ≠ '\x7d') text
  inferInstanceAs (Decidable (_ ∧ _))

variable {V : Type}

structure Sample.Valid (F : Floats V) (s : Sample) : Prop where
  name : ValidName s.name
  labels : ∀ l ∈ s.labels, ValidLabel l.1
  distinct : (s.labels.map Prod.fst).Nodup
  value : ValidNumber s.value
  number : (F.float s.value).isSome
  timestamp : ∀ timestamp, s.timestamp = some timestamp → ValidNumber timestamp

def Line.Valid (F : Floats V) : Line → Prop
  | .sample s => s.Valid F
  | .comment text => '\n' ∉ text

/-! ## Labels are read back -/

theorem quoted_quote (rest : Text) : quoted ('\x22' :: rest) = some ([], rest) := by
  cases rest <;> rfl

theorem quoted_cons {c : Char} {text : Text} (hquote : c ≠ '\x22') (hslash : c ≠ '\x5c')
    (hne : text ≠ []) :
    quoted (c :: text) = (quoted text).map fun found => (c :: found.1, found.2) := by
  obtain ⟨d, rest, rfl⟩ := List.exists_cons_of_ne_nil hne
  rw [quoted, if_neg hquote, if_neg hslash]

theorem quoted_pair {d : Char} (hd : d = '\x5c' ∨ d = '\x22' ∨ d = 'n') (text : Text) :
    quoted ('\x5c' :: d :: text) =
      (quoted text).map fun found => ('\x5c' :: d :: found.1, found.2) := by
  rcases hd with rfl | rfl | rfl <;> rfl

theorem quoted_escape (rest : Text) : ∀ text : Text,
    quoted (escape text ++ '\x22' :: rest) = some (escape text, rest)
  | [] => quoted_quote rest
  | c :: text => by
    have ih := quoted_escape rest text
    have hstep : escape (c :: text) = escapeChar c ++ escape text := rfl
    rw [hstep, escapeChar]
    split
    · simp only [List.cons_append, List.nil_append]
      rw [quoted_pair (.inl rfl), ih]
      rfl
    · split
      · simp only [List.cons_append, List.nil_append]
        rw [quoted_pair (.inr (.inl rfl)), ih]
        rfl
      · split
        · simp only [List.cons_append, List.nil_append]
          rw [quoted_pair (.inr (.inr rfl)), ih]
          rfl
        · rename_i hslash hquote _
          simp only [List.cons_append, List.nil_append]
          rw [quoted_cons hquote hslash (by simp), ih]
          rfl

theorem unescape_cons {c : Char} (hslash : c ≠ '\x5c') (text : Text) :
    unescape (c :: text) = c :: unescape text := by
  cases text with
  | nil => rfl
  | cons d rest => rw [unescape, if_neg hslash]

theorem unescape_escape : ∀ text : Text, unescape (escape text) = text
  | [] => rfl
  | c :: text => by
    have ih := unescape_escape text
    have hstep : escape (c :: text) = escapeChar c ++ escape text := rfl
    rw [hstep, escapeChar]
    split
    · rename_i hc
      change '\x5c' :: unescape (escape text) = c :: text
      rw [ih, hc]
    · split
      · rename_i hc
        change '\x22' :: unescape (escape text) = c :: text
        rw [ih, hc]
      · split
        · rename_i hc
          change '\n' :: unescape (escape text) = c :: text
          rw [ih, hc]
        · rename_i hslash _ _
          rw [List.singleton_append, unescape_cons hslash, ih]

theorem isSpace_of_nameChar {c : Char} (h : nameChar c = true) : isSpace c = false := by
  have hrange : 48 ≤ c.toNat ∧ c.toNat ≤ 122 := by
    simp only [nameChar, nameStart, labelStart, isLetter, isDigit, Bool.or_eq_true,
      Bool.and_eq_true, decide_eq_true_eq, beq_iff_eq] at h
    rcases h with (((⟨hlow, hhigh⟩ | ⟨hlow, hhigh⟩) | rfl) | rfl) | ⟨hlow, hhigh⟩
    · exact ⟨Nat.le_trans (by decide) hlow, hhigh⟩
    · exact ⟨Nat.le_trans (by decide) hlow, Nat.le_trans hhigh (by decide)⟩
    · decide
    · decide
    · exact ⟨hlow, Nat.le_trans hhigh (by decide)⟩
  rw [Bool.eq_false_iff]
  intro hspace
  simp only [isSpace, Bool.or_eq_true, Bool.and_eq_true, decide_eq_true_eq, beq_iff_eq] at hspace
  omega

theorem takeWhile_name {p : Char → Bool} {name : Text} (h : ∀ c ∈ name, p c = true) {d : Char}
    (hd : p d = false) (rest : Text) :
    (name ++ d :: rest).takeWhile p = name ∧ (name ++ d :: rest).dropWhile p = d :: rest := by
  rw [List.takeWhile_append_of_pos h, List.dropWhile_append_of_pos h,
    List.takeWhile_cons_of_neg (by simp [hd]), List.dropWhile_cons_of_neg (by simp [hd])]
  exact ⟨List.append_nil _, rfl⟩

/-- What may stand behind a label. -/
def LabelTail (text left : Text) : Prop := text = [] ∧ left = [] ∨ text = ',' :: left

theorem labelEnd_tail {text left : Text} (h : LabelTail text left) : labelEnd text = some left := by
  rcases h with ⟨rfl, rfl⟩ | rfl <;> rfl

theorem label_render {l : Text × Text} (h : ValidLabel l.1) {rest left : Text}
    (hrest : LabelTail rest left) :
    label (renderLabel l ++ rest) = some ((l.1, escape l.2), left) := by
  obtain ⟨c, name, hname, hstart, hchars⟩ := h
  have hraw : renderLabel l ++ rest =
      c :: (name ++ '=' :: '\x22' :: (escape l.2 ++ '\x22' :: rest)) := by
    rw [renderLabel, hname]
    simp
  have hspace : isSpace c = false := isSpace_of_nameChar (by simp [nameChar, nameStart, hstart])
  obtain ⟨htake, hdrop⟩ := takeWhile_name hchars (d := '=') (by decide)
    ('\x22' :: (escape l.2 ++ '\x22' :: rest))
  rw [hraw, label, List.dropWhile_cons_of_neg (by simp [hspace])]
  simp only [hstart, if_true, htake, hdrop, and_self, quoted_escape, labelEnd_tail hrest, hname,
    Option.bind_eq_bind, Option.bind_some, Option.pure_def]

/-- A rendered list of labels is its first label and what stands behind it. -/
theorem renderLabels_cons (trailing : Bool) (l : Text × Text) (labels : Labels) :
    ∃ rest, renderLabels trailing (l :: labels) = renderLabel l ++ rest ∧
      LabelTail rest (renderLabels trailing labels) := by
  cases labels with
  | nil =>
    cases trailing with
    | false => exact ⟨[], rfl, .inl ⟨rfl, rfl⟩⟩
    | true => exact ⟨[','], rfl, .inr rfl⟩
  | cons m labels => exact ⟨_, rfl, .inr rfl⟩

theorem labelTail_length {rest left : Text} (h : LabelTail rest left) : left.length ≤ rest.length := by
  rcases h with ⟨-, rfl⟩ | rfl
  · exact Nat.zero_le _
  · exact Nat.le_succ _

theorem renderLabel_ne (l : Text × Text) : 0 < (renderLabel l).length := by
  rw [renderLabel, List.length_append, List.length_cons]
  omega

theorem labelsFor_render (trailing : Bool) : ∀ {labels : Labels} (found : Labels) {fuel : Nat},
    (∀ l ∈ labels, ValidLabel l.1) → ((found ++ labels).map Prod.fst).Nodup →
    (renderLabels trailing labels).length ≤ fuel →
      labelsFor fuel (renderLabels trailing labels) found = .ok (found ++ labels)
  | [], found, fuel, _, _, _ => by
    rw [List.append_nil]
    cases fuel <;> rfl
  | l :: labels, found, fuel, hvalid, hdistinct, hfuel => by
    obtain ⟨rest, hraw, htail⟩ := renderLabels_cons trailing l labels
    have hpos := renderLabel_ne l
    have hleft := labelTail_length htail
    rw [hraw, List.length_append] at hfuel
    obtain ⟨fuel, rfl⟩ : ∃ n, fuel = n + 1 := ⟨fuel - 1, by omega⟩
    have hnew : l.1 ∉ found.map Prod.fst := by
      rw [List.map_append, List.map_cons] at hdistinct
      exact fun hmem => (List.nodup_append.1 hdistinct).2.2 _ hmem _ List.mem_cons_self rfl
    have hne : renderLabel l ++ rest ≠ [] := by
      rw [← List.length_pos_iff, List.length_append]
      omega
    rw [hraw, labelsFor, if_neg hne, label_render (hvalid l List.mem_cons_self) htail]
    simp only [hnew, if_false, unescape_escape]
    have happend : found ++ [(l.1, l.2)] ++ labels = found ++ l :: labels := by simp
    rw [← happend] at hdistinct ⊢
    exact labelsFor_render trailing _ (fun m hm => hvalid m (List.mem_cons_of_mem l hm)) hdistinct
      (by omega)

theorem parseLabels_render (trailing : Bool) {labels : Labels}
    (hvalid : ∀ l ∈ labels, ValidLabel l.1) (hdistinct : (labels.map Prod.fst).Nodup) :
    parseLabels (renderLabels trailing labels) = .ok labels :=
  labelsFor_render trailing [] hvalid hdistinct (Nat.le_refl _)

/-! ## Samples are read back -/

theorem closing_none : ∀ {text : Text}, (∀ c ∈ text, c ≠ '\x7d') → closing text = none
  | [], _ => rfl
  | c :: text, h => by
    rw [closing, closing_none fun d hd => h d (List.mem_cons_of_mem c hd)]
    exact if_neg (h c List.mem_cons_self)

/-- The last brace is the one that closes the labels. -/
theorem closing_brace {tail value : Text} (hbrace : ∀ c ∈ tail, c ≠ '\x7d')
    (htail : sampleTail tail = some value) : ∀ raw : Text,
    closing (raw ++ '\x7d' :: tail) = some (raw, value)
  | [] => by
    rw [List.nil_append, closing, closing_none hbrace]
    simp only [if_true, htail, Option.map_some]
  | c :: raw => by
    rw [List.cons_append, closing, closing_brace hbrace htail raw]

namespace Sample

variable {F : Floats V} {s : Sample}

theorem sampleTail_numbers (h : s.Valid F) : sampleTail (' ' :: s.numbers) = some s.value := by
  obtain ⟨hne, hchars⟩ := h.value
  have hblank : ∀ c ∈ s.value, (!isSpace c) = true := fun c hc => by simp [(hchars c hc).1]
  have hhead : s.numbers.dropWhile isSpace = s.numbers := by
    obtain ⟨c, rest, hvalue⟩ := List.exists_cons_of_ne_nil hne
    have hc : isSpace c = false := (hchars c (hvalue ▸ List.mem_cons_self)).1
    rw [numbers, hvalue, List.cons_append, List.dropWhile_cons_of_neg (by simp [hc])]
  have hvalue : s.numbers.takeWhile (fun c => !isSpace c) = s.value := by
    rw [numbers]
    cases s.timestamp with
    | none => rw [List.takeWhile_append_of_pos hblank, List.takeWhile_nil, List.append_nil]
    | some timestamp => exact (takeWhile_name hblank (d := ' ') (by decide) timestamp).1
  rw [sampleTail]
  simp only [hhead, hvalue]
  rw [if_pos]
  simpa [hne] using (show isSpace ' ' = true by decide)

theorem numbers_brace (h : s.Valid F) : ∀ c ∈ ' ' :: s.numbers, c ≠ '\x7d' := by
  intro c hc
  rcases List.mem_cons.1 hc with rfl | hc
  · decide
  · rcases List.mem_append.1 hc with hc | hc
    · exact (h.value.2 c hc).2
    · cases htime : s.timestamp with
      | none => simp [htime] at hc
      | some timestamp =>
        rw [htime] at hc
        rcases List.mem_cons.1 hc with rfl | hc
        · decide
        · exact ((h.timestamp timestamp htime).2 c hc).2

/-- **The pattern finds the parts of a rendered sample.** -/
theorem sample_render (h : s.Valid F) :
    sample s.render = some (s.name, renderLabels s.trailing s.labels, s.value) := by
  obtain ⟨c, rest, hname, hstart, hchars⟩ := h.name
  have hnumbers := sampleTail_numbers h
  rw [render]
  split
  · rename_i hbare
    obtain ⟨htake, hdrop⟩ := takeWhile_name hchars (d := ' ') (by decide) s.numbers
    rw [hname, List.cons_append, sample, if_pos hstart]
    simp only [htake, hdrop]
    rw [if_neg (by decide), hnumbers, hbare.1]
    rfl
  · obtain ⟨htake, hdrop⟩ := takeWhile_name hchars (d := '\x7b') (by decide)
      (renderLabels s.trailing s.labels ++ '\x7d' :: ' ' :: s.numbers)
    rw [hname, List.cons_append, sample, if_pos hstart]
    simp only [htake, hdrop]
    rw [if_pos trivial, closing_brace (numbers_brace h) hnumbers]
    rfl

end Sample

/-- A text that begins and ends with no blank is left alone. -/
theorem strip_between {c d : Char} (hc : isSpace c = false) (hd : isSpace d = false) (text : Text) :
    strip (c :: (text ++ [d])) = c :: (text ++ [d]) := by
  have hreverse : (c :: (text ++ [d])).reverse = d :: (c :: text).reverse := by simp
  rw [strip, List.dropWhile_cons_of_neg (by simp [hc]), hreverse,
    List.dropWhile_cons_of_neg (by simp [hd]), ← hreverse, List.reverse_reverse]

theorem exists_last {text : Text} (h : ValidNumber text) :
    ∃ front last, text = front ++ [last] ∧ isSpace last = false := by
  obtain ⟨front, last, rfl⟩ := List.eq_nil_or_concat text |>.resolve_left h.1
  rw [List.concat_eq_append] at h ⊢
  exact ⟨front, last, rfl, (h.2 last (by simp)).1⟩

theorem Sample.strip_render {F : Floats V} {s : Sample} (h : s.Valid F) :
    strip s.render = s.render := by
  obtain ⟨c, rest, hname, hstart, -⟩ := h.name
  have hc : isSpace c = false := isSpace_of_nameChar (by simp [nameChar, hstart])
  obtain ⟨front, last, hnumbers, hlast⟩ :
      ∃ front last, s.numbers = front ++ [last] ∧ isSpace last = false := by
    rw [numbers]
    cases htime : s.timestamp with
    | none => simpa only [List.append_nil] using exists_last h.value
    | some timestamp =>
      obtain ⟨front, last, hend, hlast⟩ := exists_last (h.timestamp timestamp htime)
      exact ⟨s.value ++ ' ' :: front, last, by simp [hend], hlast⟩
  obtain ⟨middle, hmiddle⟩ : ∃ middle, s.render = c :: (middle ++ [last]) := by
    rw [render, hname, hnumbers]
    split
    · exact ⟨rest ++ ' ' :: front, by simp⟩
    · exact ⟨rest ++ '\x7b' :: (renderLabels s.trailing s.labels ++ '\x7d' :: ' ' :: front),
        by simp⟩
  rw [hmiddle, strip_between hc hlast]

/-! ## Lines are read back -/

/-- The series is asked for. -/
def Sample.Asked (model_name : Option Text) (s : Sample) : Prop :=
  s.name ∈ names ∧
    (model_name = none ∨ s.name = processStart ∨ s.labels.lookup "model_name".toList = model_name)

instance (model_name : Option Text) (s : Sample) : Decidable (s.Asked model_name) :=
  inferInstanceAs (Decidable (_ ∧ _))

/-- The series a line gives: a sample that is asked for and has a finite value. -/
def Line.series (F : Floats V) (model_name : Option Text) : Line → Option (Text × Labels × V)
  | .comment _ => none
  | .sample s =>
    if s.Asked model_name then
      ((F.float s.value).filter F.isfinite).map fun value => (s.name, labelKey s.labels, value)
    else none

/-- **A rendered sample is read back as the series it gives.** -/
theorem Sample.readSample_render {F : Floats V} {s : Sample} (h : s.Valid F)
    (model_name : Option Text) :
    readSample F model_name s.render = .ok ((Line.sample s).series F model_name) := by
  have hlabels := parseLabels_render s.trailing h.labels h.distinct
  rw [readSample, Sample.strip_render h, Sample.sample_render h, Line.series]
  by_cases hname : s.name ∈ names
  · simp only [hname, not_true_eq_false, if_false, hlabels]
    by_cases hother : model_name ≠ none ∧ s.name ≠ processStart ∧
        s.labels.lookup "model_name".toList ≠ model_name
    · have hasked : ¬ s.Asked model_name := by
        rintro ⟨-, hmodel | hstart | hlookup⟩
        · exact hother.1 hmodel
        · exact hother.2.1 hstart
        · exact hother.2.2 hlookup
      rw [if_neg hasked]
      simp only [bind, Except.bind, if_pos hother]
      rfl
    · have hasked : s.Asked model_name := ⟨hname, by tauto⟩
      rw [if_pos hasked]
      simp only [bind, Except.bind, if_neg hother]
      cases F.float s.value with
      | none => rfl
      | some value => cases hfinite : F.isfinite value <;> simp [hfinite, pure, Except.pure]
  · rw [if_neg fun hasked => hname hasked.1]
    simp [hname]

theorem readSample_comment (F : Floats V) (model_name : Option Text) (text : Text) :
    readSample F model_name ('#' :: text) = .ok none := by
  have hhead : ∃ rest, strip ('#' :: text) = '#' :: rest := by
    rw [strip, List.dropWhile_cons_of_neg (by decide), List.reverse_cons,
      List.dropWhile_append]
    split
    · exact ⟨[], rfl⟩
    · exact ⟨_, by rw [List.reverse_append]; rfl⟩
  obtain ⟨rest, hrest⟩ := hhead
  rw [readSample, hrest]
  rfl

theorem Line.readSample_render {F : Floats V} {line : Line} (h : line.Valid F)
    (model_name : Option Text) :
    readSample F model_name line.render = .ok (line.series F model_name) := by
  cases line with
  | sample s => exact s.readSample_render h model_name
  | comment text => exact readSample_comment F model_name text

/-! ## What is read off a line -/

section Chars

variable {P : Char → Prop}

theorem unescape_chars (hfeed : P '\n') : ∀ {text : Text}, (∀ c ∈ text, P c) →
    ∀ c ∈ unescape text, P c
  | [], h => h
  | [c], h => h
  | c :: d :: rest, h => by
    have hrest : ∀ e ∈ rest, P e := fun e he => h e (by simp [he])
    have hd : P d := h d (by simp)
    rw [unescape]
    split
    · split
      · exact List.forall_mem_cons.2 ⟨hfeed, unescape_chars hfeed hrest⟩
      · split
        · exact List.forall_mem_cons.2 ⟨hd, unescape_chars hfeed hrest⟩
        · exact List.forall_mem_cons.2 ⟨h c (by simp), unescape_chars hfeed
            (List.forall_mem_cons.2 ⟨hd, hrest⟩)⟩
    · exact List.forall_mem_cons.2 ⟨h c (by simp), unescape_chars hfeed
        (List.forall_mem_cons.2 ⟨hd, hrest⟩)⟩

theorem quoted_append : ∀ {text value rest : Text}, quoted text = some (value, rest) →
    text = value ++ '\x22' :: rest
  | [], _, _, h => by cases h
  | [c], value, rest, h => by
    rw [quoted] at h
    split at h
    · rename_i hc
      cases h
      rw [hc]
      rfl
    · cases h
  | c :: d :: text, value, rest, h => by
    rw [quoted] at h
    split at h
    · rename_i hc
      cases h
      rw [hc]
      rfl
    · split at h
      · split at h
        · obtain ⟨⟨value', rest'⟩, hfound, heq⟩ := Option.map_eq_some_iff.1 h
          cases heq
          rw [quoted_append hfound]
          rfl
        · cases h
      · obtain ⟨⟨value', rest'⟩, hfound, heq⟩ := Option.map_eq_some_iff.1 h
        cases heq
        rw [quoted_append hfound]
        rfl

theorem closing_append : ∀ {text raw value : Text}, closing text = some (raw, value) →
    ∃ tail, text = raw ++ '\x7d' :: tail
  | [], _, _, h => by cases h
  | c :: text, raw, value, h => by
    rw [closing] at h
    split at h
    · rename_i raw' value' hfound
      cases h
      obtain ⟨tail, rfl⟩ := closing_append hfound
      exact ⟨tail, rfl⟩
    · split at h
      · rename_i hc
        obtain ⟨value', -, heq⟩ := Option.map_eq_some_iff.1 h
        cases heq
        exact ⟨text, by rw [hc]; rfl⟩
      · cases h

theorem dropWhile_chars {p : Char → Bool} {text : Text} (h : ∀ c ∈ text, P c) :
    ∀ c ∈ text.dropWhile p, P c :=
  fun c hc => h c ((List.dropWhile_sublist p).subset hc)

theorem strip_chars {text : Text} (h : ∀ c ∈ text, P c) : ∀ c ∈ strip text, P c := by
  intro c hc
  rw [strip, List.mem_reverse] at hc
  refine dropWhile_chars (fun d hd => ?_) c hc
  rw [List.mem_reverse] at hd
  exact dropWhile_chars h d hd

theorem labelEnd_chars {text left : Text} (h : ∀ c ∈ text, P c) (hleft : labelEnd text = some left) :
    ∀ c ∈ left, P c := by
  have hdrop := dropWhile_chars (p := isSpace) h
  rw [labelEnd] at hleft
  split at hleft
  · cases hleft
    intro c hc
    cases hc
  · rename_i d rest heq
    rw [heq] at hdrop
    split at hleft
    · cases hleft
      exact fun c hc => hdrop c (List.mem_cons_of_mem d hc)
    · cases hleft

theorem label_chars {raw name value left : Text} (h : ∀ c ∈ raw, P c)
    (hlabel : label raw = some ((name, value), left)) :
    (∀ c ∈ value, P c) ∧ ∀ c ∈ left, P c := by
  have hdrop := dropWhile_chars (p := isSpace) h
  rw [label] at hlabel
  split at hlabel
  · cases hlabel
  · rename_i c text heq
    rw [heq] at hdrop
    split at hlabel
    · have htext := dropWhile_chars (p := labelChar) fun d hd => hdrop d (List.mem_cons_of_mem c hd)
      split at hlabel
      · rename_i d e rest heq'
        rw [heq'] at htext
        split at hlabel
        · obtain ⟨⟨value', behind⟩, hquoted, hlabel⟩ := Option.bind_eq_some_iff.1 hlabel
          obtain ⟨left', hend, hlabel⟩ := Option.bind_eq_some_iff.1 hlabel
          cases hlabel
          have hrest : ∀ f ∈ rest, P f := fun f hf => htext f (by simp [hf])
          rw [quoted_append hquoted] at hrest
          exact ⟨fun f hf => hrest f (by simp [hf]),
            labelEnd_chars (fun f hf => hrest f (by simp [hf])) hend⟩
        · cases hlabel
      · cases hlabel
    · cases hlabel

theorem labelsFor_chars (hfeed : P '\n') : ∀ {fuel : Nat} {raw : Text} (found : Labels) {labels : Labels},
    (∀ c ∈ raw, P c) → (∀ l ∈ found, ∀ c ∈ l.2, P c) → labelsFor fuel raw found = .ok labels →
      ∀ l ∈ labels, ∀ c ∈ l.2, P c
  | 0, raw, found, labels, _, hfound, h => by
    cases h
    exact hfound
  | fuel + 1, raw, found, labels, hraw, hfound, h => by
    rw [labelsFor] at h
    split at h
    · cases h
      exact hfound
    · split at h
      · cases h
      · rename_i name value rest hlabel
        obtain ⟨hvalue, hrest⟩ := label_chars hraw hlabel
        split at h
        · cases h
        · refine labelsFor_chars hfeed _ hrest (fun l hl => ?_) h
          rcases List.mem_append.1 hl with hl | hl
          · exact hfound l hl
          · rw [List.mem_singleton.1 hl]
            exact unescape_chars hfeed hvalue

theorem sample_chars {line name raw value : Text} (h : ∀ c ∈ line, P c)
    (hsample : sample line = some (name, raw, value)) : ∀ c ∈ raw, P c := by
  cases line with
  | nil => cases hsample
  | cons c line =>
    rw [sample] at hsample
    split at hsample
    · have hdrop := dropWhile_chars (p := nameChar) fun d hd => h d (List.mem_cons_of_mem c hd)
      simp only at hsample
      split at hsample
      · cases hsample
      · rename_i d rest heq
        rw [heq] at hdrop
        split at hsample
        · obtain ⟨⟨raw', value'⟩, hfound, heq'⟩ := Option.map_eq_some_iff.1 hsample
          cases heq'
          obtain ⟨tail, rfl⟩ := closing_append hfound
          exact fun e he => hdrop e (by simp [he])
        · obtain ⟨value', -, heq'⟩ := Option.map_eq_some_iff.1 hsample
          cases heq'
          intro e he
          cases he
    · cases hsample

/-- **What is read off a line holds characters of the line, or a line feed.** -/
theorem readSample_chars {F : Floats V} {model_name : Option Text} {line name : Text}
    {key : Labels} {value : V} (hfeed : P '\n') (h : ∀ c ∈ line, P c)
    (hread : readSample F model_name line = .ok (some (name, key, value))) :
    ∀ l ∈ key, ∀ c ∈ l.2, P c := by
  rw [readSample] at hread
  split at hread
  · cases hread
  · rename_i name' raw number hsample
    split at hread
    · cases hread
    · obtain ⟨labels, hlabels, hread⟩ := Except.bind_eq_ok_iff.1 hread
      have hchars := labelsFor_chars hfeed [] (sample_chars (strip_chars h) hsample)
        (fun l hl => by cases hl) hlabels
      have hkey : key = labelKey labels := by
        split at hread
        · cases hread
        · split at hread
          · cases hread
          · split at hread <;> cases hread
            rfl
      intro l hl
      rw [hkey, labelKey, List.mem_insertionSort] at hl
      exact hchars l hl

end Chars

/-! ## Keys -/

/-- Two samples have one key if and only if their labels are the same. -/
theorem labelKey_eq {labels labels' : Labels} :
    labelKey labels = labelKey labels' ↔ labels.Perm labels' := by
  have hperm : ∀ labels : Labels, (labelKey labels).Perm labels :=
    fun labels => List.perm_insertionSort _ labels
  constructor
  · intro h
    have hsecond := hperm labels'
    rw [← h] at hsecond
    exact (hperm labels).symm.trans hsecond
  · intro h
    exact Descendants.insertionSort_perm toLex h fun a _ b _ hab => toLex_inj.1 hab

end ReedCode.ServerMetrics
