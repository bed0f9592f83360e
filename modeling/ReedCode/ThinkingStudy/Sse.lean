import ReedCode.Lib.Lines
import ReedCode.Lib.Streaming
import ReedCode.PyText

/-!
# The event stream of the thinking study

Literal transcription of `sse_events` of `experiments/dynamo-thinking-20261007/analyze.py`.

* `eventReader` — `re.search(br'\r?\n\r?\n', buffer)` as a reader of a stream in chunks.
* `readEvent` — the lines of one event, its `data:` and `event:` fields.
* `sseEvents`, `sseEvents_eq` — the loop over the chunks; what it returns is read off the arrivals.
-/

set_option autoImplicit false

namespace ReedCode.ThinkingStudy

open ReedCode.Streaming

abbrev Text := List Char

abbrev Bytes := List UInt8

/-! ## The end of an event -/

def optionalCr : Bytes → Bytes
  | [] => []
  | x :: rest => if x = 13 then rest else x :: rest

/-- `\r?\n` in front. -/
def lineEnd (buffer : Bytes) : Option Bytes :=
  match optionalCr buffer with
  | [] => none
  | x :: rest => if x = 10 then some rest else none

/-- `\r?\n\r?\n` in front. -/
def delimiter (buffer : Bytes) : Option Bytes := (lineEnd buffer).bind lineEnd

/-- What stands in front of the first `\r?\n\r?\n` and what stands behind it. -/
def splitEvent : Bytes → Option (Bytes × Bytes)
  | [] => none
  | x :: buffer =>
    match delimiter (x :: buffer) with
    | some rest => some ([], rest)
    | none => (splitEvent buffer).map fun found => (x :: found.1, found.2)

theorem lineEnd_eq_some {buffer rest : Bytes} :
    lineEnd buffer = some rest ↔ buffer = 10 :: rest ∨ buffer = 13 :: 10 :: rest := by
  cases buffer with
  | nil => simp [lineEnd, optionalCr]
  | cons x buffer =>
    by_cases hx : x = 13
    · subst hx
      cases buffer with
      | nil => simp [lineEnd, optionalCr]
      | cons y buffer => simp [lineEnd, optionalCr]
    · simp [lineEnd, optionalCr, hx]

theorem lineEnd_length {buffer rest : Bytes} (h : lineEnd buffer = some rest) :
    rest.length < buffer.length := by
  rcases lineEnd_eq_some.1 h with rfl | rfl <;> simp only [List.length_cons] <;> omega

theorem delimiter_length {buffer rest : Bytes} (h : delimiter buffer = some rest) :
    rest.length < buffer.length := by
  obtain ⟨left, hleft, hrest⟩ := Option.bind_eq_some_iff.1 h
  exact Nat.lt_trans (lineEnd_length hrest) (lineEnd_length hleft)

theorem lineEnd_append {buffer rest : Bytes} (h : lineEnd buffer = some rest) (later : Bytes) :
    lineEnd (buffer ++ later) = some (rest ++ later) := by
  rcases lineEnd_eq_some.1 h with rfl | rfl
  · exact lineEnd_eq_some.2 (.inl rfl)
  · exact lineEnd_eq_some.2 (.inr rfl)

theorem delimiter_append {buffer rest : Bytes} (h : delimiter buffer = some rest) (later : Bytes) :
    delimiter (buffer ++ later) = some (rest ++ later) := by
  obtain ⟨left, hleft, hrest⟩ := Option.bind_eq_some_iff.1 h
  rw [delimiter, lineEnd_append hleft later, Option.bind_some, lineEnd_append hrest later]

/-- A line end that is completed only by what comes later. -/
theorem lineEnd_completed {buffer later rest : Bytes} (hnone : lineEnd buffer = none)
    (h : lineEnd (buffer ++ later) = some rest) : buffer = [] ∨ buffer = [13] := by
  match buffer, hnone, h with
  | [], _, _ => exact .inl rfl
  | [x], hnone, h =>
    rcases lineEnd_eq_some.1 h with h | h
    · obtain rfl : x = 10 := (List.cons.inj h).1
      cases hnone
    · obtain rfl : x = 13 := (List.cons.inj h).1
      exact .inr rfl
  | x :: y :: buffer, hnone, h =>
    rcases lineEnd_eq_some.1 h with h | h
    · obtain rfl : x = 10 := (List.cons.inj h).1
      cases hnone
    · obtain rfl : x = 13 := (List.cons.inj h).1
      obtain rfl : y = 10 := (List.cons.inj (List.cons.inj h).2).1
      cases hnone

/-- A delimiter that is completed only by what comes later has nothing to split behind its first
byte. -/
theorem splitEvent_completed {x : UInt8} {buffer later rest : Bytes}
    (hnone : delimiter (x :: buffer) = none) (h : delimiter (x :: buffer ++ later) = some rest) :
    splitEvent buffer = none := by
  cases hline : lineEnd (x :: buffer) with
  | none =>
    obtain ⟨left, hleft, _⟩ := Option.bind_eq_some_iff.1 h
    rcases lineEnd_completed hline hleft with h | h
    · cases h
    · obtain rfl : buffer = [] := (List.cons.inj h).2
      rfl
  | some left =>
    rw [delimiter, hline, Option.bind_some] at hnone
    rw [delimiter, lineEnd_append hline, Option.bind_some] at h
    rcases lineEnd_completed hnone h with rfl | rfl
    · rcases lineEnd_eq_some.1 hline with h | h
      · obtain rfl := (List.cons.inj h).2
        decide
      · obtain rfl := (List.cons.inj h).2
        decide
    · rcases lineEnd_eq_some.1 hline with h | h
      · obtain rfl := (List.cons.inj h).2
        decide
      · obtain rfl := (List.cons.inj h).2
        decide

theorem splitEvent_length : ∀ {buffer raw rest : Bytes}, splitEvent buffer = some (raw, rest) →
    rest.length < buffer.length
  | [], _, _, h => by cases h
  | x :: buffer, raw, rest, h => by
    rw [splitEvent] at h
    split at h
    · rename_i rest' hdelimiter
      cases h
      exact delimiter_length hdelimiter
    · obtain ⟨⟨raw', rest'⟩, hfound, heq⟩ := Option.map_eq_some_iff.1 h
      cases heq
      exact Nat.lt_trans (splitEvent_length hfound) (Nat.lt_succ_self _)

/-- **An event does not change with what is received later.** -/
theorem splitEvent_append : ∀ {buffer raw rest : Bytes}, splitEvent buffer = some (raw, rest) →
    ∀ later, splitEvent (buffer ++ later) = some (raw, rest ++ later)
  | [], _, _, h, _ => by cases h
  | x :: buffer, raw, rest, h, later => by
    rw [splitEvent] at h
    rw [List.cons_append, splitEvent, ← List.cons_append]
    split at h
    · rename_i rest' hdelimiter
      cases h
      rw [delimiter_append hdelimiter later]
    · rename_i hdelimiter
      obtain ⟨⟨raw', rest'⟩, hfound, heq⟩ := Option.map_eq_some_iff.1 h
      cases heq
      have hnone : delimiter (x :: buffer ++ later) = none := by
        cases hlater : delimiter (x :: buffer ++ later) with
        | none => rfl
        | some rest =>
          rw [splitEvent_completed hdelimiter hlater] at hfound
          cases hfound
      rw [hnone, splitEvent_append hfound later]
      rfl

/-- The loop `while match := re.search(br'\r?\n\r?\n', buffer)` takes its events from here. -/
def eventReader : Reader UInt8 Bytes where
  read := splitEvent
  shorter := splitEvent_length
  more := splitEvent_append

/-! ## One event -/

/-- What is used of Python: `json.loads` and the text of a `UnicodeDecodeError`. -/
structure Python (V : Type) where
  loads : Text → Except Text V
  undecodable : Bytes → Text

variable {V : Type}

def dataField : Text := "data:".toList

def eventField : Text := "event:".toList

/-- `'\n'.join(line[5:].lstrip(' ') for line in lines if line.startswith('data:'))`. -/
def eventData (lines : List Text) : Text :=
  List.intercalate ['\n']
    ((lines.filter dataField.isPrefixOf).map fun line => (line.drop 5).dropWhile (· == ' '))

/-- `next((line[6:].strip() for line in lines if line.startswith('event:')), None)`. -/
def eventLabel (lines : List Text) : Option Text :=
  (lines.find? eventField.isPrefixOf).map fun line => PyText.strip (line.drop 6)

/-- Label and value of one event; `none` for an event without data. -/
def readLines (py : Python V) (lines : List Text) : Except Text (Option (Option Text × V)) :=
  let data := eventData lines
  if data = [] ∨ data = "[DONE]".toList then .ok none
  else
    match py.loads data with
    | .ok value => .ok (some (eventLabel lines, value))
    | .error error => .error error

def readEvent (py : Python V) (raw : Bytes) : Except Text (Option (Option Text × V)) :=
  match raw.toByteArray.utf8Decode? with
  | none => .error (py.undecodable raw)
  | some text => readLines py (Lines.splitlines text.toList)

theorem readLines_eq_ok {py : Python V} {lines : List Text} {label : Option Text} {value : V} :
    readLines py lines = .ok (some (label, value)) ↔
      eventData lines ≠ [] ∧ eventData lines ≠ "[DONE]".toList ∧
        py.loads (eventData lines) = .ok value ∧ eventLabel lines = label := by
  rw [readLines]
  split
  · rename_i hskip
    refine ⟨(fun h => by cases h), fun h => ?_⟩
    exact absurd hskip (not_or.2 ⟨h.1, h.2.1⟩)
  · rename_i hskip
    obtain ⟨hempty, hdone⟩ := not_or.1 hskip
    cases hloads : py.loads (eventData lines) with
    | error error => simp
    | ok value' =>
      simp only [Except.ok.injEq, Option.some.injEq, Prod.mk.injEq]
      tauto

/-! ## The loop over the chunks -/

/-- A chunk with the bytes of its `data_base64`. -/
structure Chunk where
  at_ns : Int
  data : Bytes

structure SseEvent (V : Type) where
  at_ns : Int
  event : Option Text
  data : V
  deriving DecidableEq

structure Sse (V : Type) where
  buffer : Bytes
  events : List (SseEvent V)
  errors : List Text
  last_at : Option Int

def sseRecord (py : Python V) (at_ns : Int) (s : Sse V) (raw : Bytes) : Sse V :=
  match readEvent py raw with
  | .ok none => s
  | .ok (some (label, value)) => { s with events := s.events ++ [⟨at_ns, label, value⟩] }
  | .error error => { s with errors := s.errors ++ ["invalid_sse_event:".toList ++ error] }

/-- The timestamp of a chunk is below the one in front. -/
def decreasing (last_at : Option Int) (at_ns : Int) : Bool :=
  match last_at with
  | none => false
  | some last => decide (at_ns < last)

def sseChunk (py : Python V) (s : Sse V) (chunk : Chunk) : Sse V :=
  let errors :=
    if decreasing s.last_at chunk.at_ns then
      s.errors ++ ["invalid_or_decreasing_chunk_timestamp".toList]
    else s.errors
  let drained := drain eventReader (s.buffer ++ chunk.data)
  drained.1.foldl (sseRecord py chunk.at_ns)
    { s with buffer := drained.2, errors := errors, last_at := some chunk.at_ns }

/-- The white space `bytes.strip()` removes. -/
def isSpaceByte (b : UInt8) : Bool := b == 32 || (9 ≤ b && b ≤ 13)

def sseEvents (py : Python V) (chunks : List Chunk) : List (SseEvent V) × List Text :=
  let s := chunks.foldl (sseChunk py) ⟨[], [], [], none⟩
  (s.events,
    if s.buffer.all isSpaceByte then s.errors else s.errors ++ ["truncated_sse_event".toList])

/-! ## What is read off the arrivals -/

def timed (chunks : List Chunk) : List (Int × Bytes) := chunks.map fun c => (c.at_ns, c.data)

def eventAt (py : Python V) (item : Int × Bytes) : Option (SseEvent V) :=
  match readEvent py item.2 with
  | .ok (some (label, value)) => some ⟨item.1, label, value⟩
  | _ => none

def errorOf (py : Python V) (raw : Bytes) : Option Text :=
  match readEvent py raw with
  | .error error => some ("invalid_sse_event:".toList ++ error)
  | _ => none

theorem foldl_sseRecord (py : Python V) (at_ns : Int) : ∀ (raws : List Bytes) (s : Sse V),
    raws.foldl (sseRecord py at_ns) s =
      { s with
        events := s.events ++ (raws.map (fun raw => (at_ns, raw))).filterMap (eventAt py)
        errors := s.errors ++ raws.filterMap (errorOf py) }
  | [], s => by simp
  | raw :: raws, s => by
    rw [List.foldl_cons, foldl_sseRecord py at_ns raws, List.map_cons, List.filterMap_cons,
      List.filterMap_cons, sseRecord, eventAt, errorOf]
    rcases readEvent py raw with error | _ | ⟨label, value⟩ <;> simp

/-- No timestamp is below the one in front. -/
def Nondecreasing : Option Int → List Chunk → Prop
  | _, [] => True
  | last, c :: chunks => decreasing last c.at_ns = false ∧ Nondecreasing (some c.at_ns) chunks

theorem foldl_sseChunk (py : Python V) : ∀ (chunks : List Chunk) (s : Sse V),
    Nondecreasing s.last_at chunks →
    let arrived := arrivals eventReader (timed chunks) s.buffer
    (chunks.foldl (sseChunk py) s).events = s.events ++ arrived.1.filterMap (eventAt py) ∧
      (chunks.foldl (sseChunk py) s).errors =
        s.errors ++ (arrived.1.map Prod.snd).filterMap (errorOf py) ∧
      (chunks.foldl (sseChunk py) s).buffer = arrived.2
  | [], s, _ => by simp [timed, arrivals]
  | c :: chunks, s, h => by
    obtain ⟨hevents, herrors, hbuffer⟩ := foldl_sseChunk py chunks (sseChunk py s c) (by
      rw [sseChunk, foldl_sseRecord]
      exact h.2)
    rw [List.foldl_cons, hevents, herrors, hbuffer, sseChunk, foldl_sseRecord, h.1]
    simp only [timed, List.map_cons, arrivals, List.filterMap_append, List.map_append,
      List.map_map, Function.comp_def, List.map_id', List.append_assoc, Bool.false_eq_true, if_false,
      and_self]

/-- **What the decoder returns is read off the arrivals.** -/
theorem sseEvents_eq (py : Python V) {chunks : List Chunk} (h : Nondecreasing none chunks) :
    sseEvents py chunks =
      let arrived := arrivals eventReader (timed chunks) []
      (arrived.1.filterMap (eventAt py),
        (arrived.1.map Prod.snd).filterMap (errorOf py) ++
          if arrived.2.all isSpaceByte then [] else ["truncated_sse_event".toList]) := by
  obtain ⟨hevents, herrors, hbuffer⟩ := foldl_sseChunk py chunks ⟨[], [], [], none⟩ h
  simp only [sseEvents, hevents, herrors, hbuffer, List.nil_append]
  split <;> simp

end ReedCode.ThinkingStudy
