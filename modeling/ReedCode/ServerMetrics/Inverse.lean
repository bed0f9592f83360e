import Mathlib.Data.List.Flatten
import Mathlib.Data.List.Pairwise
import ReedCode.ServerMetrics.Exposition

/-!
# Parsing against the exposition format

* `entriesOf`, `parse_ok`, `parse_exists` — the loop succeeds exactly if every line is read and no
  series comes twice, and it collects the series of the lines.
* `Line.Clean` — a line without characters at which `str.splitlines` cuts, or one whose pieces give
  nothing where the line gives nothing.
* `parse_metrics_inverse` — the series that were rendered come back exactly from clean lines; a
  series that is rendered twice without such characters is rejected.
-/

set_option autoImplicit false

namespace ReedCode.ServerMetrics

open ReedCode.PyText ReedCode.Lines

variable {V : Type}

/-! ## The loop over the lines -/

abbrev Entry (V : Type) := Text × Labels × V

def entryKey (e : Entry V) : Text × Labels := (e.1, e.2.1)

/-- `metrics[name][key]`. -/
def seriesAt (metrics : Metrics V) (k : Text × Labels) : Option V :=
  (metrics.get? k.1).bind fun series => series.get? k.2

section Loop

variable (F : Floats V) (model_name : Option Text)

def entryOf (line : Text) : Option (Entry V) :=
  match readSample F model_name line with
  | .ok entry => entry
  | .error _ => none

def entriesOf (lines : List Text) : List (Entry V) := lines.filterMap (entryOf F model_name)

variable {F model_name}

theorem addSeries_eq_ok {metrics metrics' : Metrics V} {e : Entry V} :
    addSeries metrics e = .ok metrics' ↔
      seriesAt metrics (entryKey e) = none ∧
        metrics' = metrics.insert e.1
          (((metrics.get? e.1).getD FinMap.empty).insert e.2.1 e.2.2) := by
  obtain ⟨name, key, value⟩ := e
  rw [addSeries]
  simp only [FinMap.contains_eq_isSome, seriesAt, entryKey]
  cases metrics.get? name with
  | none => simp [eq_comm]
  | some series =>
    simp only [Option.getD_some, Option.bind_some]
    by_cases hkey : series.get? key = none
    · simp [hkey, eq_comm]
    · have hsome := Option.isSome_iff_ne_none.2 hkey
      simp [hkey, hsome]

theorem seriesAt_add (metrics : Metrics V) (e : Entry V) (k : Text × Labels) :
    seriesAt (metrics.insert e.1 (((metrics.get? e.1).getD FinMap.empty).insert e.2.1 e.2.2)) k =
      if entryKey e = k then some e.2.2 else seriesAt metrics k := by
  obtain ⟨name', key', value⟩ := e
  obtain ⟨name, key⟩ := k
  simp only [seriesAt, entryKey, FinMap.get?_insert, Prod.mk.injEq]
  by_cases hname : name' = name
  · subst hname
    simp only [if_true, true_and, Option.bind_some, FinMap.get?_insert]
    split
    · rfl
    · cases metrics.get? name' with
      | none => rfl
      | some series => rfl
  · simp only [hname, false_and, if_false]

/-- The loop succeeds if every line is read and no series comes twice. -/
theorem parse_exists : ∀ {lines : List Text} (metrics : Metrics V),
    (∀ line ∈ lines, ∃ entry, readSample F model_name line = .ok entry) →
    ((entriesOf F model_name lines).map entryKey).Nodup →
    (∀ e ∈ entriesOf F model_name lines, seriesAt metrics (entryKey e) = none) →
    ∃ metrics', lines.foldlM (parseLine F model_name) metrics = .ok metrics'
  | [], metrics, _, _, _ => ⟨metrics, rfl⟩
  | line :: lines, metrics, hread, hnodup, hnew => by
    obtain ⟨entry, hline⟩ := hread line List.mem_cons_self
    have hlines := fun l hl => hread l (List.mem_cons_of_mem line hl)
    have hentry : entryOf F model_name line = entry := by rw [entryOf, hline]
    rw [List.foldlM_cons, parseLine, hline]
    cases entry with
    | none =>
      rw [entriesOf, List.filterMap_cons_none hentry] at hnodup hnew
      exact parse_exists _ hlines hnodup hnew
    | some e =>
      rw [entriesOf, List.filterMap_cons_some hentry] at hnodup hnew
      rw [List.map_cons, List.nodup_cons] at hnodup
      obtain ⟨metrics', hadd⟩ : ∃ metrics', addSeries metrics e = .ok metrics' :=
        ⟨_, addSeries_eq_ok.2 ⟨hnew e List.mem_cons_self, rfl⟩⟩
      obtain ⟨-, rfl⟩ := addSeries_eq_ok.1 hadd
      simp only [bind, Except.bind, hadd]
      refine parse_exists _ hlines hnodup.2 fun e' he' => ?_
      rw [seriesAt_add, if_neg]
      · exact hnew e' (List.mem_cons_of_mem e he')
      · intro heq
        exact hnodup.1 (heq ▸ List.mem_map_of_mem (f := entryKey) he')

/-- What the loop collects, where it succeeds. -/
theorem parse_ok : ∀ {lines : List Text} {metrics metrics' : Metrics V},
    lines.foldlM (parseLine F model_name) metrics = .ok metrics' →
    (∀ line ∈ lines, ∃ entry, readSample F model_name line = .ok entry) ∧
      ((entriesOf F model_name lines).map entryKey).Nodup ∧
      (∀ e ∈ entriesOf F model_name lines, seriesAt metrics (entryKey e) = none) ∧
      (∀ name key value, seriesAt metrics' (name, key) = some value ↔
        seriesAt metrics (name, key) = some value ∨
          (name, key, value) ∈ entriesOf F model_name lines) ∧
      ∀ name, (metrics'.get? name).isSome ↔
        (metrics.get? name).isSome ∨ ∃ e ∈ entriesOf F model_name lines, e.1 = name
  | [], metrics, metrics', h => by
    cases h
    simp [entriesOf]
  | line :: lines, metrics, metrics', h => by
    rw [List.foldlM_cons] at h
    obtain ⟨next, hline, h⟩ := Except.bind_eq_ok_iff.1 h
    obtain ⟨entry, hread, hline⟩ := Except.bind_eq_ok_iff.1 hline
    obtain ⟨hlines, hnodup, hnew, hseries, hnames⟩ := parse_ok h
    have hall : ∀ l ∈ line :: lines, ∃ entry, readSample F model_name l = .ok entry :=
      List.forall_mem_cons.2 ⟨⟨entry, hread⟩, hlines⟩
    have hentry : entryOf F model_name line = entry := by rw [entryOf, hread]
    cases entry with
    | none =>
      cases hline
      rw [entriesOf, List.filterMap_cons_none hentry]
      exact ⟨hall, hnodup, hnew, hseries, hnames⟩
    | some e =>
      obtain ⟨hfree, rfl⟩ := addSeries_eq_ok.1 hline
      rw [entriesOf, List.filterMap_cons_some hentry]
      have hkeys : ∀ e' ∈ entriesOf F model_name lines, entryKey e ≠ entryKey e' := by
        intro e' he' heq
        have hnone := hnew e' he'
        rw [seriesAt_add, if_pos heq] at hnone
        cases hnone
      refine ⟨hall, ?_, ?_, ?_, ?_⟩
      · rw [List.map_cons, List.nodup_cons]
        refine ⟨fun hmem => ?_, hnodup⟩
        obtain ⟨e', he', heq⟩ := List.mem_map.1 hmem
        exact hkeys e' he' heq.symm
      · refine List.forall_mem_cons.2 ⟨hfree, fun e' he' => ?_⟩
        have hnone := hnew e' he'
        rwa [seriesAt_add, if_neg (hkeys e' he')] at hnone
      · intro name key value
        rw [hseries, seriesAt_add, List.mem_cons]
        split
        · rename_i heq
          have hsame : some e.2.2 = some value ↔ (name, key, value) = e := by
            obtain ⟨name', key', value'⟩ := e
            obtain ⟨rfl, rfl⟩ := Prod.mk.inj heq
            simp [eq_comm]
          rw [hsame, ← heq, hfree]
          simp only [reduceCtorEq, false_or]
          rfl
        · rename_i hne
          have hother : (name, key, value) ≠ e := by
            rintro rfl
            exact hne rfl
          simp only [hother, false_or]
          rfl
      · intro name
        rw [hnames, FinMap.get?_insert]
        simp only [List.mem_cons, exists_eq_or_imp]
        by_cases hname : e.1 = name
        · simp [hname]
        · simp only [hname, if_false, false_or]
          rfl

end Loop

/-! ## The pieces of a line -/

/-- What `str.splitlines` makes of a line and its line feed. -/
def Line.pieces (line : Line) : List Text := splitlines (line.render ++ ['\n'])

def Line.Unbroken (line : Line) : Prop := Whole line.render

instance : DecidablePred Line.Unbroken := fun line => inferInstanceAs (Decidable (Whole line.render))

theorem splitlines_render : ∀ lines : List Line,
    splitlines (render lines) = lines.flatMap Line.pieces
  | [] => rfl
  | line :: lines => by
    have hrender : render (line :: lines) = line.render ++ '\n' :: render lines := by
      simp [render]
    rw [hrender, splitlines_append, splitlines_render lines]
    rfl

theorem Line.pieces_unbroken {line : Line} (h : line.Unbroken) : line.pieces = [line.render] := by
  rw [pieces, splitlines, splitFrom_line h]
  rfl

theorem isSpace_of_lineBreak {c : Char} (h : lineBreak c = true) : isSpace c = true := by
  simp only [lineBreak, Bool.or_eq_true, beq_iff_eq] at h
  rcases h with ((((((((rfl | rfl) | rfl) | rfl) | rfl) | rfl) | rfl) | rfl) | rfl) | rfl <;> rfl

theorem not_lineBreak {c : Char} (h : isSpace c = false) : lineBreak c = false := by
  cases hbreak : lineBreak c with
  | false => rfl
  | true => rw [isSpace_of_lineBreak hbreak] at h; cases h

theorem not_lineBreak_escape {c : Char} {text : Text}
    (h : ∀ d ∈ text, d = '\n' ∨ lineBreak d = false) (hc : c ∈ escape text) :
    lineBreak c = false := by
  obtain ⟨d, hd, hc⟩ := List.mem_flatMap.1 hc
  rw [escapeChar] at hc
  split at hc
  · simp only [List.mem_cons, List.not_mem_nil, or_false, or_self] at hc
    rw [hc]
    rfl
  · split at hc
    · simp only [List.mem_cons, List.not_mem_nil, or_false] at hc
      rcases hc with rfl | rfl <;> rfl
    · split at hc
      · simp only [List.mem_cons, List.not_mem_nil, or_false] at hc
        rcases hc with rfl | rfl <;> rfl
      · rename_i hfeed
        rw [List.mem_singleton.1 hc]
        exact (h d hd).resolve_left hfeed

theorem not_lineBreak_label {c : Char} {l : Text × Text} (hname : ValidLabel l.1)
    (h : ∀ d ∈ l.2, d = '\n' ∨ lineBreak d = false) (hc : c ∈ renderLabel l) :
    lineBreak c = false := by
  obtain ⟨d, rest, heq, hstart, hchars⟩ := hname
  rw [renderLabel, heq] at hc
  simp only [List.cons_append, List.mem_cons, List.mem_append, List.not_mem_nil, or_false] at hc
  rcases hc with rfl | hc | rfl | rfl | hc | rfl
  · exact not_lineBreak (isSpace_of_nameChar (by simp [nameChar, nameStart, hstart]))
  · refine not_lineBreak (isSpace_of_nameChar ?_)
    have hlabel := hchars c hc
    simp only [labelChar, Bool.or_eq_true] at hlabel
    rcases hlabel with hlabel | hlabel <;> simp [nameChar, nameStart, hlabel]
  · rfl
  · rfl
  · exact not_lineBreak_escape h hc
  · rfl

theorem not_lineBreak_labels {trailing : Bool} : ∀ {labels : Labels},
    (∀ l ∈ labels, ValidLabel l.1) → (∀ l ∈ labels, ∀ d ∈ l.2, d = '\n' ∨ lineBreak d = false) →
      ∀ c ∈ renderLabels trailing labels, lineBreak c = false
  | [], _, _ => fun c hc => (by cases hc)
  | l :: labels, hvalid, h => by
    obtain ⟨rest, hraw, htail⟩ := renderLabels_cons trailing l labels
    have hlabels : ∀ c ∈ renderLabels trailing labels, lineBreak c = false :=
      not_lineBreak_labels (fun m hm => hvalid m (List.mem_cons_of_mem l hm))
        (fun m hm => h m (List.mem_cons_of_mem l hm))
    intro c hc
    rw [hraw, List.mem_append] at hc
    rcases hc with hc | hc
    · exact not_lineBreak_label (hvalid l List.mem_cons_self) (h l List.mem_cons_self) hc
    · rcases htail with ⟨rfl, -⟩ | rfl
      · cases hc
      · rcases List.mem_cons.1 hc with rfl | hc
        · rfl
        · exact hlabels c hc

theorem Sample.not_lineBreak_numbers {F : Floats V} {s : Sample} (h : s.Valid F) :
    ∀ c ∈ s.numbers, lineBreak c = false := by
  intro c hc
  rcases List.mem_append.1 hc with hc | hc
  · exact not_lineBreak (h.value.2 c hc).1
  · cases htime : s.timestamp with
    | none => simp [htime] at hc
    | some timestamp =>
      rw [htime] at hc
      rcases List.mem_cons.1 hc with rfl | hc
      · rfl
      · exact not_lineBreak ((h.timestamp timestamp htime).2 c hc).1

/-- Only the labels can break the line of a sample. -/
theorem Sample.unbroken {F : Floats V} {s : Sample} (h : s.Valid F)
    (hlabels : ∀ l ∈ s.labels, ∀ c ∈ l.2, c = '\n' ∨ lineBreak c = false) :
    (Line.sample s).Unbroken := by
  have hname : ∀ c ∈ s.name, lineBreak c = false := by
    obtain ⟨d, rest, heq, hstart, hchars⟩ := h.name
    intro c hc
    rw [heq] at hc
    rcases List.mem_cons.1 hc with rfl | hc
    · exact not_lineBreak (isSpace_of_nameChar (by simp [nameChar, hstart]))
    · exact not_lineBreak (isSpace_of_nameChar (hchars c hc))
  intro c hc
  rw [Line.render, Sample.render] at hc
  split at hc
  · simp only [List.mem_append, List.mem_cons] at hc
    rcases hc with hc | rfl | hc
    · exact hname c hc
    · rfl
    · exact Sample.not_lineBreak_numbers h c hc
  · simp only [List.mem_append, List.mem_cons] at hc
    rcases hc with hc | rfl | hc | rfl | rfl | hc
    · exact hname c hc
    · rfl
    · exact not_lineBreak_labels h.labels hlabels c hc
    · rfl
    · rfl
    · exact Sample.not_lineBreak_numbers h c hc

/-! ## Clean lines -/

/-- A line that is not cut, or one that gives nothing and whose pieces give nothing. -/
def Line.Clean (F : Floats V) (model_name : Option Text) (line : Line) : Prop :=
  line.Unbroken ∨ line.series F model_name = none ∧
    ∀ piece ∈ line.pieces, readSample F model_name piece = .ok none

/-- The series that were rendered. -/
def expected (F : Floats V) (model_name : Option Text) (lines : List Line) : List (Entry V) :=
  lines.filterMap (Line.series F model_name)

/-- The metrics are the series of a list, and no name stands without a series. -/
def Exactly (metrics : Metrics V) (entries : List (Entry V)) : Prop :=
  (∀ name key value, seriesAt metrics (name, key) = some value ↔ (name, key, value) ∈ entries) ∧
    ∀ name, (metrics.get? name).isSome ↔ ∃ e ∈ entries, e.1 = name

section Lines

variable {F : Floats V} {model_name : Option Text}

theorem entriesOf_unbroken {line : Line} (hvalid : line.Valid F) (h : line.Unbroken) :
    entriesOf F model_name line.pieces = (line.series F model_name).toList := by
  rw [Line.pieces_unbroken h, entriesOf, List.filterMap_cons, entryOf,
    Line.readSample_render hvalid]
  cases line.series F model_name <;> rfl

theorem entriesOf_clean {line : Line} (hvalid : line.Valid F) (h : line.Clean F model_name) :
    entriesOf F model_name line.pieces = (line.series F model_name).toList := by
  rcases h with h | ⟨hnone, hpieces⟩
  · exact entriesOf_unbroken hvalid h
  · rw [hnone, entriesOf, Option.toList_none, List.filterMap_eq_nil_iff]
    intro piece hpiece
    rw [entryOf, hpieces piece hpiece]

theorem read_clean {line : Line} (hvalid : line.Valid F) (h : line.Clean F model_name) :
    ∀ piece ∈ line.pieces, ∃ entry, readSample F model_name piece = .ok entry := by
  intro piece hpiece
  rcases h with h | ⟨-, hpieces⟩
  · rw [Line.pieces_unbroken h, List.mem_singleton] at hpiece
    exact ⟨_, hpiece ▸ Line.readSample_render hvalid model_name⟩
  · exact ⟨none, hpieces piece hpiece⟩

theorem entriesOf_flatMap (lines : List Line) :
    entriesOf F model_name (lines.flatMap Line.pieces) =
      lines.flatMap fun line => entriesOf F model_name line.pieces :=
  List.filterMap_flatMap

theorem expected_eq (lines : List Line) :
    expected F model_name lines = lines.flatMap fun line => (line.series F model_name).toList :=
  List.filterMap_eq_flatMap_toList _ _

/-- **Clean lines are parsed to the series that were rendered.** -/
theorem parse_clean {lines : List Line} (hvalid : ∀ line ∈ lines, line.Valid F)
    (hdistinct : ((expected F model_name lines).map entryKey).Nodup)
    (hclean : ∀ line ∈ lines, line.Clean F model_name) :
    ∃ metrics, parseMetrics F (render lines) model_name = .ok metrics ∧
      Exactly metrics (expected F model_name lines) := by
  have hentries : entriesOf F model_name (lines.flatMap Line.pieces) =
      expected F model_name lines := by
    rw [entriesOf_flatMap, expected_eq]
    exact List.flatMap_congr fun line hline => entriesOf_clean (hvalid line hline)
      (hclean line hline)
  have hread : ∀ piece ∈ lines.flatMap Line.pieces,
      ∃ entry, readSample F model_name piece = .ok entry := by
    intro piece hpiece
    obtain ⟨line, hline, hpiece⟩ := List.mem_flatMap.1 hpiece
    exact read_clean (hvalid line hline) (hclean line hline) piece hpiece
  obtain ⟨metrics, hparse⟩ := parse_exists FinMap.empty hread
    (hentries ▸ hdistinct) (fun e _ => rfl)
  obtain ⟨-, -, -, hseries, hnames⟩ := parse_ok hparse
  rw [hentries] at hseries hnames
  refine ⟨metrics, by rw [parseMetrics, splitlines_render, hparse], fun name key value => ?_,
    fun name => ?_⟩
  · rw [hseries]
    simp [seriesAt]
  · rw [hnames]
    simp

/-- A series that came back was rendered on a line that is not cut. -/
theorem unbroken_of_read (lines : List Line) {line : Line} {e : Entry V} (hvalid : line.Valid F)
    (hseries : line.series F model_name = some e)
    (hmem : e ∈ entriesOf F model_name (lines.flatMap Line.pieces)) : line.Unbroken := by
  obtain ⟨piece, hpiece, hentry⟩ := List.mem_filterMap.1 hmem
  obtain ⟨source, -, hpiece⟩ := List.mem_flatMap.1 hpiece
  have hread : readSample F model_name piece = .ok (some e) := by
    rw [entryOf] at hentry
    split at hentry
    · rename_i entry hread
      rw [hread, hentry]
    · cases hentry
  cases line with
  | comment text => cases hseries
  | sample s =>
    have hkey : e.2.1 = labelKey s.labels := by
      rw [Line.series] at hseries
      split at hseries
      · obtain ⟨value, -, rfl⟩ := Option.map_eq_some_iff.1 hseries
        rfl
      · cases hseries
    refine Sample.unbroken hvalid fun l hl => ?_
    refine readSample_chars (P := fun c => c = '\n' ∨ lineBreak c = false) (.inl rfl)
      (fun c hc => .inr (lineBreak_of_mem_splitlines hpiece c hc)) hread l ?_
    rwa [hkey, labelKey, List.mem_insertionSort]

/-- **Only clean lines are parsed to the series that were rendered.** -/
theorem clean_of_parse {lines : List Line} (hvalid : ∀ line ∈ lines, line.Valid F)
    {metrics : Metrics V} (hparse : parseMetrics F (render lines) model_name = .ok metrics)
    (hexactly : Exactly metrics (expected F model_name lines)) :
    ∀ line ∈ lines, line.Clean F model_name := by
  rw [parseMetrics, splitlines_render] at hparse
  obtain ⟨hread, hnodup, -, hseries, -⟩ := parse_ok hparse
  have hsame : ∀ e, e ∈ entriesOf F model_name (lines.flatMap Line.pieces) ↔
      e ∈ expected F model_name lines := by
    rintro ⟨name, key, value⟩
    rw [← hexactly.1, hseries]
    simp [seriesAt]
  have hgives : ∀ line ∈ lines, ∀ e, line.series F model_name = some e → line.Unbroken := by
    intro line hline e he
    refine unbroken_of_read lines (hvalid line hline) he ?_
    exact (hsame e).2 (List.mem_filterMap.2 ⟨line, hline, he⟩)
  intro line hline
  cases hline' : line.series F model_name with
  | some e => exact .inl (hgives line hline e hline')
  | none =>
    refine .inr ⟨hline', fun piece hpiece => ?_⟩
    obtain ⟨entry, hentry⟩ := hread piece (List.mem_flatMap.2 ⟨line, hline, hpiece⟩)
    cases entry with
    | none => exact hentry
    | some e =>
      -- The line of the series and this one would give it twice.
      have hpieces : e ∈ entriesOf F model_name line.pieces :=
        List.mem_filterMap.2 ⟨piece, hpiece, by rw [entryOf, hentry]⟩
      have hmem : e ∈ entriesOf F model_name (lines.flatMap Line.pieces) := by
        rw [entriesOf_flatMap]
        exact List.mem_flatMap.2 ⟨line, hline, hpieces⟩
      obtain ⟨source, hsource, hgiven⟩ := List.mem_filterMap.1 ((hsame e).1 hmem)
      have hown : e ∈ entriesOf F model_name source.pieces := by
        rw [entriesOf_unbroken (hvalid source hsource) (hgives source hsource e hgiven), hgiven]
        exact List.mem_singleton_self e
      have hne : line ≠ source := by
        rintro rfl
        rw [hline'] at hgiven
        cases hgiven
      rw [entriesOf_flatMap] at hnodup
      have hdisjoint := (List.nodup_flatMap.1 hnodup.of_map).2
      have hsymm : Std.Symm (Function.onFun List.Disjoint
          fun line : Line => entriesOf F model_name line.pieces) := 
        ⟨fun _ _ h _ hb ha => h ha hb⟩
      exact absurd hown (hdisjoint.forall hline hsource hne hpieces)

/-- **A series that is rendered twice on lines that are not cut is rejected.** -/
theorem parse_duplicate {lines : List Line} (hvalid : ∀ line ∈ lines, line.Valid F)
    (hdouble : ¬ ((expected F model_name (lines.filter (·.Unbroken))).map entryKey).Nodup) :
    ∃ error, parseMetrics F (render lines) model_name = .error error := by
  cases hparse : parseMetrics F (render lines) model_name with
  | error error => exact ⟨error, rfl⟩
  | ok metrics =>
    rw [parseMetrics, splitlines_render] at hparse
    obtain ⟨-, hnodup, -⟩ := parse_ok hparse
    refine absurd (hnodup.sublist (List.Sublist.map entryKey ?_)) hdouble
    rw [entriesOf_flatMap, expected_eq]
    have hunbroken : (lines.filter (·.Unbroken)).flatMap
        (fun line => (line.series F model_name).toList) =
          (lines.filter (·.Unbroken)).flatMap fun line => entriesOf F model_name line.pieces :=
      List.flatMap_congr fun line hline => by
        obtain ⟨hmem, hline⟩ := List.mem_filter.1 hline
        exact (entriesOf_unbroken (hvalid line hmem) (of_decide_eq_true hline)).symm
    rw [hunbroken]
    exact List.filter_sublist.flatMap _

end Lines

/-- **Parsing inverts the exposition format exactly on clean lines.** Series that are all different
come back if and only if every line is clean, and a series that two lines give which are not cut is
rejected. -/
theorem parse_metrics_inverse {F : Floats V} {model_name : Option Text} {lines : List Line}
    (hvalid : ∀ line ∈ lines, line.Valid F) :
    (((expected F model_name lines).map entryKey).Nodup →
      ((∃ metrics, parseMetrics F (render lines) model_name = .ok metrics ∧
          Exactly metrics (expected F model_name lines)) ↔
        ∀ line ∈ lines, line.Clean F model_name)) ∧
    (¬ ((expected F model_name (lines.filter (·.Unbroken))).map entryKey).Nodup →
      ∃ error, parseMetrics F (render lines) model_name = .error error) := by
  refine ⟨fun hdistinct => ⟨?_, parse_clean hvalid hdistinct⟩, parse_duplicate hvalid⟩
  rintro ⟨metrics, hparse, hexactly⟩
  exact clean_of_parse hvalid hparse hexactly

/-! ## Two bodies -/

/-- Whole numbers, and one value that is not finite. -/
def exampleFloats : Floats (Option Nat) where
  float := fun text =>
    if text = "NaN".toList then some none
    else if text ≠ [] ∧ text.all isDigit then
      some (some (text.foldl (fun n c => 10 * n + (c.toNat - '0'.toNat)) 0))
    else none
  isfinite := Option.isSome

/-- A sample of the model `model`. -/
def exampleSample (model value : Text) : Sample where
  name := "vllm:prompt_tokens_total".toList
  labels := [("model_name".toList, model), ("engine".toList, "0\x7d 1".toList)]
  value := value
  timestamp := some "7".toList
  trailing := true
  braces := true

theorem exampleSample_valid {model value : Text} (hvalue : ValidNumber value)
    (hnumber : (exampleFloats.float value).isSome) :
    (exampleSample model value).Valid exampleFloats where
  name := ⟨'v', "llm:prompt_tokens_total".toList, rfl, rfl, List.all_eq_true.1 (by decide)⟩
  labels := by
    intro l hl
    rcases List.mem_cons.1 hl with rfl | hl
    · exact ⟨'m', "odel_name".toList, rfl, rfl, List.all_eq_true.1 (by decide)⟩
    · rw [List.mem_singleton.1 hl]
      exact ⟨'e', "ngine".toList, rfl, rfl, List.all_eq_true.1 (by decide)⟩
  distinct := by
    show ["model_name".toList, "engine".toList].Nodup
    decide
  value := hvalue
  number := hnumber
  timestamp := by
    intro timestamp h
    cases h
    exact (by decide : ValidNumber "7".toList)

def exampleLines : List Line :=
  [.comment " HELP \x7b".toList, .sample (exampleSample "a\x22\x5c\n".toList "12".toList),
    .sample (exampleSample "a\x22\x5c\n".toList "NaN".toList),
    .sample (exampleSample "b".toList "3".toList)]

theorem exampleLines_valid : ∀ line ∈ exampleLines, line.Valid exampleFloats := by
  intro line hline
  simp only [exampleLines, List.mem_cons, List.not_mem_nil, or_false] at hline
  rcases hline with rfl | rfl | rfl | rfl
  · exact (show '\n' ∉ " HELP \x7b".toList by decide)
  · exact exampleSample_valid (by decide) (by decide)
  · exact exampleSample_valid (by decide) (by decide)
  · exact exampleSample_valid (by decide) (by decide)

/-- Escapes, a brace in a label, a comment, a value that is not finite and another model. -/
theorem parse_metrics_inverse_example :
    (∃ metrics, parseMetrics exampleFloats (render exampleLines) (some "a\x22\x5c\n".toList) =
        .ok metrics ∧
      Exactly metrics (expected exampleFloats (some "a\x22\x5c\n".toList) exampleLines)) ∧
    expected exampleFloats (some "a\x22\x5c\n".toList) exampleLines =
      [("vllm:prompt_tokens_total".toList,
        [("engine".toList, "0\x7d 1".toList), ("model_name".toList, "a\x22\x5c\n".toList)],
        some 12)] := by
  refine ⟨((parse_metrics_inverse exampleLines_valid).1 (by decide +kernel)).2 ?_,
    by decide +kernel⟩
  intro line hline
  refine .inl ?_
  revert line
  decide +kernel

/-- **A line separator in a label loses the series, also where it comes twice.** -/
theorem parse_metrics_inverse_fails :
    (exampleSample ['\u2028'] "12".toList).Valid exampleFloats ∧
      expected exampleFloats none [.sample (exampleSample ['\u2028'] "12".toList)] =
        [("vllm:prompt_tokens_total".toList,
          [("engine".toList, "0\x7d 1".toList), ("model_name".toList, ['\u2028'])], some 12)] ∧
      parseMetrics exampleFloats (render [.sample (exampleSample ['\u2028'] "12".toList)]) none =
        .ok FinMap.empty ∧
      parseMetrics exampleFloats (render [.sample (exampleSample ['\u2028'] "12".toList),
        .sample (exampleSample ['\u2028'] "12".toList)]) none = .ok FinMap.empty := by
  refine ⟨exampleSample_valid (by decide) (by decide), ?_, ?_, ?_⟩
  · decide +kernel
  · decide +kernel
  · decide +kernel

end ReedCode.ServerMetrics
