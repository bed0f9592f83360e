import ReedCode.ThinkingStudy.Sse

/-!
# The decoder against the encoding

* `Sent`, `Sent.encode` — an event as it is sent: a label, an object, the ends of the lines.
* `readEvent_sent` — the record of an event is read back exactly if no character of the label or of
  the object ends a line for `str.splitlines`.
* `sse_events_decode` — the same for every list of events and every way of cutting the stream.
-/

set_option autoImplicit false

namespace ReedCode.ThinkingStudy

open ReedCode.Streaming ReedCode.Lines

variable {V : Type}

/-! ## Bytes of a text -/

def utf8 (text : Text) : Bytes := text.flatMap String.utf8EncodeChar

theorem utf8_append (a b : Text) : utf8 (a ++ b) = utf8 a ++ utf8 b := List.flatMap_append

theorem utf8_decode (text : Text) : (utf8 text).toByteArray.utf8Decode? = some text.toArray :=
  List.utf8Decode?_utf8Encode

/-- A byte of a character is the character itself or above the ASCII range. -/
theorem mem_utf8EncodeChar {c : Char} {b : UInt8} (h : b ∈ String.utf8EncodeChar c) :
    128 ≤ b.toNat ∨ b.toNat = c.toNat := by
  have hc : c.toNat = c.val.toNat := rfl
  rw [String.utf8EncodeChar] at h
  split at h
  · rename_i hone
    rw [List.mem_singleton.1 h, UInt8.toNat_ofNat']
    exact .inr (by omega)
  · left
    split at h
    · simp only [List.mem_cons, List.not_mem_nil, or_false] at h
      rcases h with rfl | rfl <;> rw [UInt8.toNat_ofNat'] <;> omega
    · split at h
      · simp only [List.mem_cons, List.not_mem_nil, or_false] at h
        rcases h with rfl | rfl | rfl <;> rw [UInt8.toNat_ofNat'] <;> omega
      · simp only [List.mem_cons, List.not_mem_nil, or_false] at h
        rcases h with rfl | rfl | rfl | rfl <;> rw [UInt8.toNat_ofNat'] <;> omega

def OneLine (text : Text) : Prop := ∀ c ∈ text, c ≠ '\n' ∧ c ≠ '\r'

instance : DecidablePred OneLine := fun text =>
  List.decidableBAll (fun c => c ≠ '\n' ∧ c ≠ '\r') text

theorem OneLine.append {a b : Text} (ha : OneLine a) (hb : OneLine b) : OneLine (a ++ b) :=
  fun c hc => (List.mem_append.1 hc).elim (ha c) (hb c)

theorem OneLine.utf8 {text : Text} (h : OneLine text) : ∀ b ∈ utf8 text, b ≠ 10 ∧ b ≠ 13 := by
  intro b hb
  obtain ⟨c, hc, hbyte⟩ := List.mem_flatMap.1 hb
  obtain ⟨hlf, hcr⟩ := h c hc
  have hkind := mem_utf8EncodeChar hbyte
  refine ⟨?_, ?_⟩
  · rintro rfl
    rcases hkind with hkind | hkind
    · exact absurd hkind (by decide)
    · exact hlf (Char.toNat_inj.1 hkind.symm)
  · rintro rfl
    rcases hkind with hkind | hkind
    · exact absurd hkind (by decide)
    · exact hcr (Char.toNat_inj.1 hkind.symm)

/-! ## Events as they are sent -/

inductive Eol where
  | lf
  | crlf

def Eol.text : Eol → Text
  | .lf => ['\n']
  | .crlf => ['\r', '\n']

def spaces (n : Nat) : Text := List.replicate n ' '

structure Sent (V : Type) where
  label : Option Text
  text : Text
  value : V
  labelSpaces : Nat
  dataSpaces : Nat
  labelEnd : Eol
  dataEnd : Eol
  blankEnd : Eol

namespace Sent

def dataLine (s : Sent V) : Text := dataField ++ spaces s.dataSpaces ++ s.text

/-- The lines of the event, without the ends of the last line and of the empty line. -/
def record (s : Sent V) : Text :=
  match s.label with
  | none => s.dataLine
  | some label => eventField ++ spaces s.labelSpaces ++ label ++ (s.labelEnd.text ++ s.dataLine)

def encode (s : Sent V) : Bytes := utf8 (s.record ++ (s.dataEnd.text ++ s.blankEnd.text))

/-- A serialized object on one line, under a label that `str.strip` leaves alone. -/
structure Valid (py : Python V) (s : Sent V) : Prop where
  loads : py.loads s.text = .ok s.value
  object : s.text.head? = some '\x7b'
  oneLine : OneLine s.text
  label : ∀ label, s.label = some label → PyText.strip label = label ∧ OneLine label

/-- No character of the label or of the object ends a line. -/
def Unbroken (s : Sent V) : Prop :=
  (∀ label, s.label = some label → Whole label) ∧ Whole s.text

end Sent

/-! ## Finding the end of an event -/

theorem lineEnd_none {x : UInt8} {rest : Bytes} (h : x ≠ 10 ∧ x ≠ 13) :
    lineEnd (x :: rest) = none := by
  cases hline : lineEnd (x :: rest) with
  | none => rfl
  | some left =>
    rcases lineEnd_eq_some.1 hline with heq | heq
    · exact absurd (List.cons.inj heq).1 h.1
    · exact absurd (List.cons.inj heq).1 h.2

theorem splitEvent_line : ∀ {line : Bytes}, (∀ b ∈ line, b ≠ 10 ∧ b ≠ 13) → ∀ rest,
    splitEvent (line ++ rest) = (splitEvent rest).map fun found => (line ++ found.1, found.2)
  | [], _, rest => by simp
  | x :: line, h, rest => by
    rw [List.cons_append, splitEvent, delimiter, lineEnd_none (h x List.mem_cons_self),
      Option.bind_none, splitEvent_line (fun b hb => h b (List.mem_cons_of_mem x hb)) rest]
    simp only [Option.map_map, Function.comp_def, List.cons_append]

/-- The end of a line that another line follows. -/
theorem splitEvent_eol (e : Eol) {x : UInt8} (h : x ≠ 10 ∧ x ≠ 13) (rest : Bytes) :
    splitEvent (utf8 e.text ++ x :: rest) =
      (splitEvent (x :: rest)).map fun found => (utf8 e.text ++ found.1, found.2) := by
  have hlf : delimiter (10 :: x :: rest) = none := lineEnd_none h
  have hcrlf : delimiter (13 :: 10 :: x :: rest) = none := lineEnd_none h
  cases e with
  | lf =>
    change splitEvent (10 :: x :: rest) = _
    rw [splitEvent, hlf]
    rfl
  | crlf =>
    change splitEvent (13 :: 10 :: x :: rest) = _
    rw [splitEvent, hcrlf, splitEvent, hlf, Option.map_map]
    rfl

theorem splitEvent_blank (e e' : Eol) (later : Bytes) :
    splitEvent (utf8 e.text ++ (utf8 e'.text ++ later)) = some ([], later) := by
  cases e <;> cases e' <;> rfl

theorem oneLine_spaces (n : Nat) : OneLine (spaces n) := by
  intro c hc
  rw [List.eq_of_mem_replicate hc]
  decide

theorem Sent.oneLine_dataLine {s : Sent V} (h : OneLine s.text) : OneLine s.dataLine :=
  ((show OneLine dataField by decide).append (oneLine_spaces _)).append h

/-- **What was encoded is found, whatever follows.** -/
theorem splitEvent_encode {py : Python V} {s : Sent V} (h : s.Valid py) (later : Bytes) :
    splitEvent (s.encode ++ later) = some (utf8 s.record, later) := by
  have hdata : ∀ b ∈ utf8 s.dataLine, b ≠ 10 ∧ b ≠ 13 := (Sent.oneLine_dataLine h.oneLine).utf8
  have hblank : splitEvent (utf8 s.dataLine ++
      (utf8 s.dataEnd.text ++ (utf8 s.blankEnd.text ++ later))) =
        some (utf8 s.dataLine, later) := by
    rw [splitEvent_line hdata, splitEvent_blank, Option.map_some, List.append_nil]
  cases hlabel : s.label with
  | none =>
    simp only [Sent.encode, Sent.record, hlabel, utf8_append, List.append_assoc]
    exact hblank
  | some label =>
    let line := eventField ++ spaces s.labelSpaces ++ label
    have hline : OneLine line :=
      ((show OneLine eventField by decide).append (oneLine_spaces _)).append
        (h.label label hlabel).2
    have hencode : s.encode ++ later = utf8 line ++ (utf8 s.labelEnd.text ++ (utf8 s.dataLine ++
        (utf8 s.dataEnd.text ++ (utf8 s.blankEnd.text ++ later)))) := by
      simp only [Sent.encode, Sent.record, hlabel, line, utf8_append, List.append_assoc]
    have hrecord : utf8 s.record =
        utf8 line ++ (utf8 s.labelEnd.text ++ utf8 s.dataLine) := by
      simp only [Sent.record, hlabel, line, utf8_append]
    obtain ⟨rest, hhead⟩ : ∃ rest, utf8 s.dataLine = 100 :: rest := ⟨_, rfl⟩
    rw [hhead] at hblank hencode hrecord
    rw [hencode, hrecord, splitEvent_line hline.utf8, List.cons_append,
      splitEvent_eol _ (by decide), ← List.cons_append, hblank]
    rfl

theorem encodes_sent {py : Python V} {s : Sent V} (h : s.Valid py) :
    Encodes eventReader Sent.encode (fun s => utf8 s.record) s := splitEvent_encode h

/-! ## The lines of a record -/

theorem splitlines_eol (e : Eol) {line : Text} (h : ∀ c ∈ line, lineBreak c = false)
    (rest : Text) : splitlines (line ++ (e.text ++ rest)) = line :: splitlines rest := by
  cases e with
  | lf => exact splitFrom_line h
  | crlf =>
    change splitFrom false [] (line ++ '\r' :: '\n' :: rest) = _
    rw [splitFrom_break rfl h]
    rfl

theorem unbroken_spaces (n : Nat) : ∀ c ∈ spaces n, lineBreak c = false := by
  intro c hc
  rw [List.eq_of_mem_replicate hc]
  decide

/-- A line of a field. -/
theorem unbroken_line {field text : Text} (hfield : ∀ c ∈ field, lineBreak c = false) (n : Nat)
    (htext : ∀ c ∈ text, lineBreak c = false) :
    ∀ c ∈ field ++ spaces n ++ text, lineBreak c = false := by
  intro c hc
  rcases List.mem_append.1 hc with hc | hc
  · rcases List.mem_append.1 hc with hc | hc
    · exact hfield c hc
    · exact unbroken_spaces n c hc
  · exact htext c hc

/-- The first character of a text that ends a line. -/
theorem exists_first_break : ∀ {text : Text}, ¬ (∀ c ∈ text, lineBreak c = false) →
    ∃ front c rest, text = front ++ c :: rest ∧ (∀ c ∈ front, lineBreak c = false) ∧
      lineBreak c = true
  | [], h => absurd (fun c hc => (by cases hc)) h
  | c :: text, h => by
    by_cases hc : lineBreak c = true
    · exact ⟨[], c, text, rfl, (fun d hd => by cases hd), hc⟩
    · have hc : lineBreak c = false := by simpa using hc
      have htext : ¬ (∀ c ∈ text, lineBreak c = false) := fun hall =>
        h fun d hd => (List.mem_cons.1 hd).elim (fun heq => heq ▸ hc) (hall d)
      obtain ⟨front, d, rest, rfl, hfront, hd⟩ := exists_first_break htext
      refine ⟨c :: front, d, rest, rfl, ?_, hd⟩
      intro e he
      rcases List.mem_cons.1 he with rfl | he
      · exact hc
      · exact hfront e he

/-! ## Fields -/

theorem strip_spaces (n : Nat) (text : Text) : PyText.strip (spaces n ++ text) = PyText.strip text := by
  have hdrop : (spaces n ++ text).dropWhile PyText.isSpace = text.dropWhile PyText.isSpace := by
    induction n with
    | zero => rfl
    | succ n ih =>
      rw [spaces, List.replicate_succ, List.cons_append, List.dropWhile_cons_of_pos (by decide)]
      exact ih
  rw [PyText.strip, hdrop, PyText.strip]

theorem strip_length (text : Text) : (PyText.strip text).length ≤ text.length := by
  rw [PyText.strip, List.length_reverse]
  have houter := (List.dropWhile_sublist (l := (text.dropWhile PyText.isSpace).reverse)
    PyText.isSpace).length_le
  have hinner := (List.dropWhile_sublist (l := text) PyText.isSpace).length_le
  rw [List.length_reverse] at houter
  exact Nat.le_trans houter hinner

/-- What the first `data:` line holds, and what other lines may add behind a line feed. -/
theorem eventData_cons (n : Nat) {front : Text} (hobject : front.head? = some '\x7b')
    (others : List Text) :
    eventData ((dataField ++ spaces n ++ front) :: others) =
      if others.filter dataField.isPrefixOf = [] then front
      else front ++ '\n' :: eventData others := by
  have hfield : dataField.isPrefixOf (dataField ++ spaces n ++ front) = true := by
    rw [List.append_assoc, List.isPrefixOf_iff_prefix]
    exact List.prefix_append _ _
  have hdrop : ((dataField ++ spaces n ++ front).drop 5).dropWhile (· == ' ') = front := by
    rw [List.append_assoc]
    change (spaces n ++ front).dropWhile (· == ' ') = front
    rw [spaces, List.dropWhile_append_of_pos (by simp)]
    obtain ⟨rest, rfl⟩ : ∃ rest, front = '\x7b' :: rest := by
      cases front with
      | nil => cases hobject
      | cons c rest => exact ⟨rest, by rw [Option.some.inj hobject]⟩
    rw [List.dropWhile_cons_of_neg (by decide)]
  rw [eventData, List.filter_cons_of_pos hfield, List.map_cons, hdrop]
  cases hothers : others.filter dataField.isPrefixOf with
  | nil =>
    rw [if_pos rfl]
    simp [List.intercalate]
  | cons other rest =>
    rw [if_neg (by simp), eventData, hothers, List.map_cons]
    simp [List.intercalate, List.intersperse]

/-- `json.loads` is strict: a character that ends a line stands in valid text within a string only,
where the text cannot end and no line feed may stand. -/
def Strict (loads : Text → Except Text V) : Prop :=
  ∀ {front : Text} {c : Char} {rest : Text} {value : V}, loads (front ++ c :: rest) = .ok value →
    lineBreak c = true → c ≠ '\n' → c ≠ '\r' →
      (∃ error, loads front = .error error) ∧
        ∀ text, ∃ error, loads (front ++ '\n' :: text) = .error error

theorem eventField_line (n : Nat) (text : Text) :
    eventField.isPrefixOf (eventField ++ spaces n ++ text) = true := by
  rw [List.append_assoc, List.isPrefixOf_iff_prefix]
  exact List.prefix_append _ _

theorem eventLabel_cons (n : Nat) (text : Text) (others : List Text) :
    eventLabel ((eventField ++ spaces n ++ text) :: others) = some (PyText.strip text) := by
  rw [eventLabel, List.find?_cons_of_pos (eventField_line n text), Option.map_some,
    List.append_assoc]
  exact congrArg some (strip_spaces n text)

/-- The line of the label adds no data. -/
theorem eventData_event (n : Nat) (text : Text) (others : List Text) :
    eventData ((eventField ++ spaces n ++ text) :: others) = eventData others := by
  have hfield : dataField.isPrefixOf (eventField ++ spaces n ++ text) = false := rfl
  rw [eventData, List.filter_cons_of_neg (by rw [hfield]; decide), eventData]

theorem unbroken_dataField : Whole dataField := by decide

theorem unbroken_eventField : Whole eventField := by decide

namespace Sent

variable {py : Python V} {s : Sent V}

/-- The first lines of a record, up to the line that begins behind them. -/
theorem splitlines_record (hlabel : ∀ label, s.label = some label →
    ∀ c ∈ label, lineBreak c = false) :
    splitlines s.record =
      match s.label with
      | none => splitlines s.dataLine
      | some label =>
        (eventField ++ spaces s.labelSpaces ++ label) :: splitlines s.dataLine := by
  rw [record]
  cases hs : s.label with
  | none => rfl
  | some label =>
    exact splitlines_eol s.labelEnd (unbroken_line unbroken_eventField _ (hlabel label hs)) _

theorem eventData_record (hlabel : ∀ label, s.label = some label →
    ∀ c ∈ label, lineBreak c = false) :
    eventData (splitlines s.record) = eventData (splitlines s.dataLine) := by
  rw [splitlines_record hlabel]
  cases s.label with
  | none => rfl
  | some label => exact eventData_event _ _ _

/-- **An unbroken record is read back.** -/
theorem readEvent_unbroken (h : s.Valid py) (hunbroken : s.Unbroken) :
    readEvent py (utf8 s.record) = .ok (some (s.label, s.value)) := by
  obtain ⟨hlabel, htext⟩ := hunbroken
  have hlines : splitlines s.dataLine = [s.dataLine] :=
    splitFrom_last (unbroken_line unbroken_dataField _ htext) (by simp [dataLine, dataField])
  have hdata : eventData (splitlines s.record) = s.text := by
    rw [eventData_record hlabel, hlines, dataLine, eventData_cons _ h.object, List.filter_nil,
      if_pos rfl]
  have hhead : ∀ text : Text, text.head? ≠ some '\x7b' → s.text ≠ text := by
    rintro text htext rfl
    exact htext h.object
  rw [readEvent, utf8_decode]
  refine readLines_eq_ok.2 ?_
  rw [hdata]
  refine ⟨hhead [] (by decide), hhead _ (by decide), h.loads, ?_⟩
  rw [splitlines_record hlabel]
  cases hs : s.label with
  | none =>
    simp only [hlines]
    rfl
  | some label =>
    rw [eventLabel_cons, (h.label label hs).1]

theorem readEvent_label_broken {label : Text} (hs : s.label = some label)
    (hbroken : ¬ ∀ c ∈ label, lineBreak c = false) (value : V) :
    readEvent py (utf8 s.record) ≠ .ok (some (s.label, value)) := by
  obtain ⟨front, c, rest, rfl, hfront, hc⟩ := exists_first_break hbroken
  intro hread
  rw [readEvent, utf8_decode] at hread
  obtain ⟨-, -, -, hlabel⟩ := readLines_eq_ok.1 hread
  have hrecord : s.record = (eventField ++ spaces s.labelSpaces ++ front) ++
      c :: (rest ++ (s.labelEnd.text ++ s.dataLine)) := by
    rw [record, hs]
    simp only [List.append_assoc, List.cons_append]
  have hlines : splitlines s.record = (eventField ++ spaces s.labelSpaces ++ front) ::
      splitFrom (c == '\r') [] (rest ++ (s.labelEnd.text ++ s.dataLine)) := by
    rw [hrecord]
    exact splitFrom_break hc (unbroken_line unbroken_eventField _ hfront)
  rw [hlines, eventLabel_cons, hs, Option.some.injEq] at hlabel
  have hlength := strip_length front
  rw [hlabel, List.length_append, List.length_cons] at hlength
  omega

theorem readEvent_text_broken (hstrict : Strict py.loads) (h : s.Valid py)
    (hlabel : ∀ label, s.label = some label → ∀ c ∈ label, lineBreak c = false)
    (hbroken : ¬ ∀ c ∈ s.text, lineBreak c = false) (label : Option Text) (value : V) :
    readEvent py (utf8 s.record) ≠ .ok (some (label, value)) := by
  obtain ⟨front, c, rest, htext, hfront, hc⟩ := exists_first_break hbroken
  intro hread
  rw [readEvent, utf8_decode] at hread
  obtain ⟨-, -, hloads, -⟩ := readLines_eq_ok.1 hread
  have hlines : splitlines s.dataLine =
      (dataField ++ spaces s.dataSpaces ++ front) :: splitFrom (c == '\r') [] rest := by
    rw [dataLine, htext, ← List.append_assoc]
    exact splitFrom_break hc (unbroken_line unbroken_dataField _ hfront)
  have hobject : front.head? = some '\x7b' := by
    have hobject := h.object
    rw [htext] at hobject
    cases front with
    | nil =>
      cases hobject
      cases hc
    | cons d front => exact hobject
  have hmem : c ∈ s.text := by
    rw [htext]
    exact List.mem_append_right _ List.mem_cons_self
  have hvalid := h.loads
  rw [htext] at hvalid
  obtain ⟨hend, hfeed⟩ := hstrict hvalid hc (h.oneLine c hmem).1 (h.oneLine c hmem).2
  rw [eventData_record hlabel, hlines, eventData_cons _ hobject] at hloads
  split at hloads
  · obtain ⟨error, herror⟩ := hend
    rw [herror] at hloads
    cases hloads
  · obtain ⟨error, herror⟩ := hfeed _
    rw [herror] at hloads
    cases hloads

/-- **The record of an event is read back exactly if it is unbroken.** -/
theorem readEvent_sent (hstrict : Strict py.loads) (h : s.Valid py) :
    readEvent py (utf8 s.record) = .ok (some (s.label, s.value)) ↔ s.Unbroken := by
  refine ⟨fun hread => ?_, readEvent_unbroken h⟩
  have hlabel : ∀ label, s.label = some label → ∀ c ∈ label, lineBreak c = false := by
    intro label hs
    by_contra hbroken
    exact readEvent_label_broken hs hbroken _ hread
  refine ⟨hlabel, ?_⟩
  by_contra hbroken
  exact readEvent_text_broken hstrict h hlabel hbroken _ _ hread

end Sent

/-! ## The events of a stream -/

/-- The events that were sent, each with the timestamp of the chunk that completes it. -/
def Delivered (events : List (SseEvent V)) (chunks : List Chunk) (sent : List (Sent V)) : Prop :=
  events.map (fun e => (some e.at_ns, e.event, e.data)) =
    schedule Sent.encode (fun s => (s.label, s.value)) 0 (timed chunks) 0 sent

section Items

variable {py : Python V} {chunks : List (Int × Bytes)} {got : Nat}

/-- The records of the events, as they arrive. -/
def records (chunks : List (Int × Bytes)) (got start : Nat) (sent : List (Sent V)) :
    List (Option Int × Bytes) :=
  schedule Sent.encode (fun s => utf8 s.record) got chunks start sent

theorem eventAt_eq_some {item : Int × Bytes} {e : SseEvent V} :
    eventAt py item = some e ↔
      readEvent py item.2 = .ok (some (e.event, e.data)) ∧ item.1 = e.at_ns := by
  obtain ⟨at_ns, label, value⟩ := e
  rw [eventAt]
  rcases readEvent py item.2 with error | _ | ⟨label', value'⟩
  · simp
  · simp
  · simp only [Option.some.injEq, SseEvent.mk.injEq, Except.ok.injEq, Prod.mk.injEq]
    tauto

theorem errorOf_ok {raw : Bytes} {event : Option (Option Text × V)}
    (h : readEvent py raw = .ok event) : errorOf py raw = none := by
  rw [errorOf, h]

/-- Unbroken events are decoded as they arrive. -/
theorem events_of_unbroken : ∀ {sent : List (Sent V)} {items : List (Int × Bytes)} {start : Nat},
    items.map (fun x => (some x.1, x.2)) = records chunks got start sent →
    (∀ s ∈ sent, s.Valid py) → (∀ s ∈ sent, s.Unbroken) →
    (items.filterMap (eventAt py)).map (fun e => (some e.at_ns, e.event, e.data)) =
        schedule Sent.encode (fun s => (s.label, s.value)) got chunks start sent ∧
      (items.map Prod.snd).filterMap (errorOf py) = []
  | [], items, start, hitems, _, _ => by
    obtain rfl : items = [] := List.map_eq_nil_iff.1 hitems
    exact ⟨rfl, rfl⟩
  | s :: sent, items, start, hitems, hvalid, hunbroken => by
    obtain ⟨item, items, rfl, hitem, hrest⟩ := List.map_eq_cons_iff.1 hitems
    obtain ⟨hat, hraw⟩ := Prod.mk.inj hitem
    have hread : readEvent py item.2 = .ok (some (s.label, s.value)) := by
      rw [hraw]
      exact s.readEvent_unbroken (hvalid s List.mem_cons_self) (hunbroken s List.mem_cons_self)
    have hevent : eventAt py item = some ⟨item.1, s.label, s.value⟩ :=
      eventAt_eq_some.2 ⟨hread, rfl⟩
    obtain ⟨hevents, herrors⟩ := events_of_unbroken hrest
      (fun s' hs => hvalid s' (List.mem_cons_of_mem s hs))
      (fun s' hs => hunbroken s' (List.mem_cons_of_mem s hs))
    refine ⟨?_, ?_⟩
    · rw [List.filterMap_cons, hevent, List.map_cons, hevents, hat, schedule]
    · rw [List.map_cons, List.filterMap_cons, errorOf_ok hread, herrors]

/-- If the events are all there, every record was read as it was sent. -/
theorem unbroken_of_events (hstrict : Strict py.loads) :
    ∀ {sent : List (Sent V)} {items : List (Int × Bytes)} {start : Nat},
      items.map (fun x => (some x.1, x.2)) = records chunks got start sent →
      (∀ s ∈ sent, s.Valid py) →
      (items.filterMap (eventAt py)).map (fun e => (some e.at_ns, e.event, e.data)) =
        schedule Sent.encode (fun s => (s.label, s.value)) got chunks start sent →
      ∀ s ∈ sent, s.Unbroken
  | [], _, _, _, _, _ => fun s hs => (by cases hs)
  | s :: sent, items, start, hitems, hvalid, hevents => by
    obtain ⟨item, items, rfl, hitem, hrest⟩ := List.map_eq_cons_iff.1 hitems
    obtain ⟨hat, hraw⟩ := Prod.mk.inj hitem
    have hcount : items.length = sent.length := by
      simpa only [List.length_map, records, length_schedule] using congrArg List.length hrest
    cases hevent : eventAt py item with
    | none =>
      -- An event is missing, and the records left are too few to make up for it.
      rw [List.filterMap_cons_none hevent] at hevents
      have hlength := congrArg List.length hevents
      rw [List.length_map, length_schedule, List.length_cons] at hlength
      have hle := List.length_filterMap_le (eventAt py) items
      omega
    | some e =>
      rw [List.filterMap_cons_some hevent, List.map_cons, schedule, List.cons.injEq, Prod.mk.injEq,
        Prod.mk.injEq] at hevents
      obtain ⟨⟨-, hlabel, hvalue⟩, hlater⟩ := hevents
      have hread := (eventAt_eq_some.1 hevent).1
      rw [hlabel, hvalue, hraw] at hread
      intro s' hs'
      rcases List.mem_cons.1 hs' with rfl | hs'
      · exact (Sent.readEvent_sent hstrict (hvalid _ List.mem_cons_self)).1 hread
      · exact unbroken_of_events hstrict hrest
          (fun s' hs => hvalid s' (List.mem_cons_of_mem s hs)) hlater s' hs'

end Items

def received (chunks : List Chunk) : Bytes := (chunks.map Chunk.data).flatten

theorem received_timed (chunks : List Chunk) :
    ((timed chunks).map Prod.snd).flatten = received chunks := by
  rw [timed, List.map_map]
  rfl

/-- What arrives of events and of the beginning of one more. -/
theorem arrivals_sent {py : Python V} {sent : List (Sent V)} {chunks : List Chunk} (part : Bytes)
    (hvalid : ∀ s ∈ sent, s.Valid py)
    (hpart : ∀ front rest, part = front ++ rest → splitEvent front = none)
    (hreceived : received chunks = (sent.map Sent.encode).flatten ++ part) :
    (arrivals eventReader (timed chunks) []).1.map (fun x => (some x.1, x.2)) =
        records (timed chunks) 0 0 sent ∧
      (arrivals eventReader (timed chunks) []).2 = part := by
  refine arrivals_encoded hpart 0 (fun s hs => encodes_sent (hvalid s hs)) rfl ?_
  rw [List.nil_append, received_timed, hreceived]

theorem splitEvent_nil {front rest : Bytes} (h : [] = front ++ rest) : splitEvent front = none := by
  rw [(List.append_eq_nil_iff.1 h.symm).1]
  rfl

/-- The beginning of an event holds no event and is not empty for `bytes.strip`. -/
theorem encode_part {py : Python V} {s : Sent V} (h : s.Valid py) {part rest : Bytes}
    (hencode : s.encode = part ++ rest) (hpart : part ≠ []) (hrest : rest ≠ []) :
    (∀ front back, part = front ++ back → splitEvent front = none) ∧
      part.all isSpaceByte = false := by
  refine ⟨fun front back hfront => ?_, ?_⟩
  · refine read_part (encodes_sent h) (?_ : s.encode = front ++ (back ++ rest)) (by simp [hrest])
    rw [hencode, hfront, List.append_assoc]
  · obtain ⟨x, part, rfl⟩ := List.exists_cons_of_ne_nil hpart
    have hhead : s.encode.head? = some 100 ∨ s.encode.head? = some 101 := by
      rw [Sent.encode, Sent.record]
      cases s.label with
      | none => exact .inl rfl
      | some label => exact .inr rfl
    rw [hencode, List.cons_append, List.head?_cons, Option.some.injEq, Option.some.injEq] at hhead
    rcases hhead with rfl | rfl <;> rfl

section Decode

variable {py : Python V} (hstrict : Strict py.loads)

include hstrict

theorem sseEvents_whole {sent : List (Sent V)} {chunks : List Chunk}
    (hvalid : ∀ s ∈ sent, s.Valid py) (htime : Nondecreasing none chunks)
    (hreceived : received chunks = (sent.map Sent.encode).flatten) :
    (Delivered (sseEvents py chunks).1 chunks sent ∧ (sseEvents py chunks).2 = []) ↔
      ∀ s ∈ sent, s.Unbroken := by
  obtain ⟨hitems, hleft⟩ := arrivals_sent [] hvalid (fun _ _ => splitEvent_nil)
    (by rw [hreceived, List.append_nil])
  rw [sseEvents_eq py htime]
  simp only [hleft, List.all_nil, if_true, List.append_nil]
  refine ⟨fun h => unbroken_of_events hstrict hitems hvalid h.1, ?_⟩
  exact events_of_unbroken hitems hvalid

theorem sseEvents_cut {sent : List (Sent V)} {last : Sent V} {part rest : Bytes}
    {chunks : List Chunk} (hvalid : ∀ s ∈ sent, s.Valid py) (hlast : last.Valid py)
    (hencode : last.encode = part ++ rest) (hpart : part ≠ []) (hrest : rest ≠ [])
    (htime : Nondecreasing none chunks)
    (hreceived : received chunks = (sent.map Sent.encode).flatten ++ part) :
    (Delivered (sseEvents py chunks).1 chunks sent ∧ (sseEvents py chunks).2 ≠ []) ↔
      ∀ s ∈ sent, s.Unbroken := by
  obtain ⟨hfront, hspace⟩ := encode_part hlast hencode hpart hrest
  obtain ⟨hitems, hleft⟩ := arrivals_sent _ hvalid hfront hreceived
  rw [sseEvents_eq py htime]
  simp only [hleft, hspace, Bool.false_eq_true, if_false]
  refine ⟨fun h => unbroken_of_events hstrict hitems hvalid h.1, fun h => ⟨?_, by simp⟩⟩
  exact (events_of_unbroken hitems hvalid h).1

end Decode

/-- The events of a stream without their timestamps. -/
def untimed (events : List (SseEvent V)) : List (Option Text × V) :=
  events.map fun e => (e.event, e.data)

theorem untimed_eventAt (py : Python V) : ∀ items : List (Int × Bytes),
    untimed (items.filterMap (eventAt py)) =
      untimed (((items.map Prod.snd).map fun raw => (0, raw)).filterMap (eventAt py))
  | [] => rfl
  | item :: items => by
    have ih := untimed_eventAt py items
    simp only [untimed, List.map_cons, List.filterMap_cons] at ih ⊢
    simp only [eventAt]
    rcases readEvent py item.2 with error | _ | ⟨label, value⟩ <;> simp only [List.map_cons, ih]

/-- **The chunks matter for the timestamps only.** -/
theorem sseEvents_chunks (py : Python V) {chunks chunks' : List Chunk}
    (htime : Nondecreasing none chunks) (htime' : Nondecreasing none chunks')
    (hreceived : received chunks = received chunks') :
    untimed (sseEvents py chunks).1 = untimed (sseEvents py chunks').1 ∧
      (sseEvents py chunks).2 = (sseEvents py chunks').2 := by
  have hitems : ∀ chunks : List Chunk,
      ((arrivals eventReader (timed chunks) []).1.map Prod.snd,
        (arrivals eventReader (timed chunks) []).2) = drain eventReader (received chunks) := by
    intro chunks
    rw [arrivals_items (R := eventReader) _ rfl, received_timed, List.nil_append]
  obtain ⟨hraws, hleft⟩ := Prod.mk.inj ((hitems chunks).trans (hreceived ▸ (hitems chunks').symm))
  rw [sseEvents_eq py htime, sseEvents_eq py htime']
  simp only [hraws, hleft, and_true]
  rw [untimed_eventAt, hraws, ← untimed_eventAt]

/-- **The decoder inverts the encoding exactly where no character of a label or of an object ends
a line, however the stream is cut.** A cut within an event leaves the events in front and an error,
and the chunks matter for the timestamps only. -/
theorem sse_events_decode {py : Python V} (hstrict : Strict py.loads) :
    (∀ (sent : List (Sent V)) (chunks : List Chunk), (∀ s ∈ sent, s.Valid py) →
      Nondecreasing none chunks → received chunks = (sent.map Sent.encode).flatten →
      ((Delivered (sseEvents py chunks).1 chunks sent ∧ (sseEvents py chunks).2 = []) ↔
        ∀ s ∈ sent, s.Unbroken)) ∧
    (∀ (sent : List (Sent V)) (last : Sent V) (part rest : Bytes) (chunks : List Chunk),
      (∀ s ∈ sent, s.Valid py) → last.Valid py → last.encode = part ++ rest → part ≠ [] →
      rest ≠ [] → Nondecreasing none chunks →
      received chunks = (sent.map Sent.encode).flatten ++ part →
      ((Delivered (sseEvents py chunks).1 chunks sent ∧ (sseEvents py chunks).2 ≠ []) ↔
        ∀ s ∈ sent, s.Unbroken)) ∧
    ∀ chunks chunks' : List Chunk, Nondecreasing none chunks → Nondecreasing none chunks' →
      received chunks = received chunks' →
      untimed (sseEvents py chunks).1 = untimed (sseEvents py chunks').1 ∧
        (sseEvents py chunks).2 = (sseEvents py chunks').2 := by
  refine ⟨fun sent chunks hvalid htime hreceived => ?_, ?_, ?_⟩
  · exact sseEvents_whole hstrict hvalid htime hreceived
  · intro sent last part rest chunks hvalid hlast hencode hpart hrest htime hreceived
    exact sseEvents_cut hstrict hvalid hlast hencode hpart hrest htime hreceived
  · intro chunks chunks' htime htime' hreceived
    exact sseEvents_chunks py htime htime' hreceived

/-! ## Two streams -/

/-- `json.loads` where it sees one text, an object with one entry, and the beginnings of it. -/
def examplePython (value : Text) : Python (List (Text × Text)) where
  loads := fun text =>
    if text = "\x7b\x22a\x22:\x22".toList ++ value ++ "\x22\x7d".toList then .ok [(['a'], value)]
    else .error "Unterminated string or invalid control character".toList
  undecodable := fun _ => "invalid start byte".toList

theorem strict_examplePython {value : Text} (h : '\n' ∉ value) :
    Strict (examplePython value).loads := by
  intro front c rest found hloads _ _ _
  simp only [examplePython] at hloads
  split at hloads
  · rename_i htext
    refine ⟨⟨_, if_neg fun hfront => ?_⟩, fun text => ⟨_, if_neg fun hfeed => ?_⟩⟩
    · have hlength := congrArg List.length (htext.trans hfront.symm)
      rw [List.length_append, List.length_cons] at hlength
      omega
    · have hmem : '\n' ∈ front ++ '\n' :: text := List.mem_append_right _ List.mem_cons_self
      rw [hfeed] at hmem
      simp [h] at hmem
  · cases hloads

/-- One event under a label; `value` stands in its object. -/
def exampleSent (value : Text) : Sent (List (Text × Text)) where
  label := some "delta".toList
  text := "\x7b\x22a\x22:\x22".toList ++ value ++ "\x22\x7d".toList
  value := [(['a'], value)]
  labelSpaces := 1
  dataSpaces := 1
  labelEnd := .crlf
  dataEnd := .lf
  blankEnd := .crlf

theorem exampleSent_valid {value : Text} (h : OneLine value) :
    (exampleSent value).Valid (examplePython value) where
  loads := if_pos rfl
  object := rfl
  oneLine := ((show OneLine "\x7b\x22a\x22:\x22".toList by decide).append h).append (by decide)
  label := fun label hlabel => by
    cases hlabel
    decide

/-- The stream of one event in two chunks. -/
def exampleChunks (value : Text) (n : Nat) : List Chunk :=
  [⟨3, (exampleSent value).encode.take n⟩, ⟨5, (exampleSent value).encode.drop n⟩]

theorem exampleChunks_received (value : Text) (n : Nat) :
    received (exampleChunks value n) = ([exampleSent value].map Sent.encode).flatten := by
  simp [received, exampleChunks]

theorem exampleChunks_nondecreasing (value : Text) (n : Nat) :
    Nondecreasing none (exampleChunks value n) := ⟨rfl, rfl, trivial⟩

/-- A character of two bytes cut in the middle. -/
theorem sse_events_decode_example :
    Delivered (sseEvents (examplePython ['é']) (exampleChunks ['é'] 27)).1 (exampleChunks ['é'] 27)
        [exampleSent ['é']] ∧
      (sseEvents (examplePython ['é']) (exampleChunks ['é'] 27)).2 = [] := by
  refine ((sse_events_decode (strict_examplePython (by decide))).1 _ _ ?_
    (exampleChunks_nondecreasing _ _) (exampleChunks_received _ _)).2 ?_
  · intro s hs
    rw [List.mem_singleton.1 hs]
    exact exampleSent_valid (by decide)
  · intro s hs
    rw [List.mem_singleton.1 hs]
    refine ⟨fun label hlabel => ?_, by decide⟩
    cases hlabel
    decide

/-- **A line separator in a string loses the event.** -/
theorem sse_events_decode_fails :
    Strict (examplePython ['\u2028']).loads ∧
      (exampleSent ['\u2028']).Valid (examplePython ['\u2028']) ∧
      ¬ (Delivered (sseEvents (examplePython ['\u2028']) (exampleChunks ['\u2028'] 27)).1
          (exampleChunks ['\u2028'] 27) [exampleSent ['\u2028']] ∧
        (sseEvents (examplePython ['\u2028']) (exampleChunks ['\u2028'] 27)).2 = []) := by
  have hstrict : Strict (examplePython ['\u2028']).loads := strict_examplePython (by decide)
  have hvalid : (exampleSent ['\u2028']).Valid (examplePython ['\u2028']) :=
    exampleSent_valid (by decide)
  refine ⟨hstrict, hvalid, fun h => ?_⟩
  have hunbroken := (sseEvents_whole hstrict
    (fun s hs => List.mem_singleton.1 hs ▸ hvalid) (exampleChunks_nondecreasing _ _) (exampleChunks_received _ _)).1 h
  exact absurd (hunbroken _ List.mem_cons_self).2 (by decide)

end ReedCode.ThinkingStudy
