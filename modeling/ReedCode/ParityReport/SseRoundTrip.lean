import ReedCode.ParityReport.Evidence
import ReedCode.ThinkingStudy.SseDecode

/-!
# Event streams against their encoding

* `Sent`, `Stream` — events as they are sent: a name, an object, the ends of the lines.
* `normalise_line` — the ends of lines become line feeds.
* `sseEvents_encode` — **a stream is read back**.
* `sseEvents_cut` — **a stream that is cut inside a data line is refused**.
-/

set_option autoImplicit false

namespace ReedCode.ParityReport

open ThinkingStudy (Text OneLine utf8)

/-! ## Replacement -/

section Replace

variable {old new : Text}

theorem replace_nil : replace old new [] = [] := rfl

theorem intercalate_modifyHead (front sep : Text) (pieces : List Text) (h : pieces ≠ []) :
    List.intercalate sep (pieces.modifyHead (front ++ ·)) = front ++ List.intercalate sep pieces := by
  cases pieces with
  | nil => exact absurd rfl h
  | cons piece pieces => cases pieces <;> simp [List.intercalate, List.modifyHead]

theorem splitOn_ne_nil (hold : old ≠ []) (text : Text) : Text.splitOn old text ≠ [] := by
  rw [Text.splitOn_eq hold]
  split <;> exact List.cons_ne_nil _ _

/-- An occurrence is replaced. -/
theorem replace_append (hold : old ≠ []) (text : Text) :
    replace old new (old ++ text) = new ++ replace old new text := by
  rw [replace, replace, Text.splitOn_append hold]
  cases hsplit : Text.splitOn old text with
  | nil => exact absurd hsplit (splitOn_ne_nil hold text)
  | cons piece pieces => simp [List.intercalate]

/-- What begins no occurrence stays. -/
theorem replace_cons (hold : old ≠ []) {c : Char} {text : Text} (h : ¬ old <+: c :: text) :
    replace old new (c :: text) = c :: replace old new text := by
  rw [replace, replace, Text.splitOn_cons hold h]
  exact intercalate_modifyHead [c] new _ (splitOn_ne_nil hold text)

theorem replace_front {c : Char} {rest front : Text} (h : c ∉ front) (text : Text) :
    replace (c :: rest) new (front ++ text) = front ++ replace (c :: rest) new text := by
  rw [replace, replace, Text.splitOn_front h]
  exact intercalate_modifyHead front new _ (splitOn_ne_nil (List.cons_ne_nil c rest) text)

end Replace

/-! ## Ends of lines -/

/-- `text.replace("\r\n", "\n").replace("\r", "\n")`. -/
def normalise (text : Text) : Text := replace ['\r'] ['\n'] (replace ['\r', '\n'] ['\n'] text)

inductive LineEnd where
  | lf
  | crlf
  | cr
  deriving DecidableEq

def LineEnd.text : LineEnd → Text
  | .lf => ['\n']
  | .crlf => ['\r', '\n']
  | .cr => ['\r']

theorem OneLine.not_mem {text : Text} (h : OneLine text) : '\n' ∉ text ∧ '\r' ∉ text :=
  ⟨fun hmem => (h _ hmem).1 rfl, fun hmem => (h _ hmem).2 rfl⟩

theorem normalise_front {line : Text} (h : OneLine line) (text : Text) :
    normalise (line ++ text) = line ++ normalise text := by
  rw [normalise, replace_front (OneLine.not_mem h).2, replace_front (OneLine.not_mem h).2]
  rfl

/-- **The end of a line becomes a line feed**, unless a carriage return has one behind it. -/
theorem normalise_end {e : LineEnd} {text : Text} (h : e = .cr → text.head? ≠ some '\n') :
    normalise (e.text ++ text) = '\n' :: normalise text := by
  have hlf : ∀ rest : Text, replace ['\r'] ['\n'] ('\n' :: rest) = '\n' :: replace ['\r'] ['\n'] rest :=
    fun rest => replace_cons (by decide) (by simp)
  cases e with
  | lf =>
    have hkeep : ¬ ['\r', '\n'] <+: '\n' :: text := by simp
    rw [normalise, LineEnd.text, List.singleton_append, replace_cons (by decide) hkeep, hlf]
    rfl
  | crlf =>
    rw [normalise, LineEnd.text, replace_append (by decide), List.singleton_append, hlf]
    rfl
  | cr =>
    have hkeep : ¬ ['\r', '\n'] <+: '\r' :: text := by
      intro hprefix
      obtain ⟨rest, hrest⟩ := (List.cons_prefix_cons.1 hprefix).2
      exact h rfl (by rw [← hrest]; rfl)
    rw [normalise, LineEnd.text, List.singleton_append, replace_cons (by decide) hkeep]
    exact replace_append (by decide) _

/-- A line with its end. -/
theorem normalise_line {line : Text} (hline : OneLine line) {e : LineEnd} {text : Text}
    (h : e = .cr → text.head? ≠ some '\n') :
    normalise (line ++ (e.text ++ text)) = line ++ '\n' :: normalise text := by
  rw [normalise_front hline, normalise_end h]

theorem LineEnd.text_head (e : LineEnd) (text : Text) :
    e = .cr → (e.text ++ text).head? ≠ some '\n' := by
  rintro rfl
  simp [LineEnd.text]

/-! ## Blocks -/

/-- A line that another nonempty line follows belongs to the block. -/
theorem splitOn_line {line : Text} (hline : '\n' ∉ line) {c : Char} (hc : c ≠ '\n') (text : Text) :
    Text.splitOn ['\n', '\n'] (line ++ '\n' :: c :: text) =
      (Text.splitOn ['\n', '\n'] (c :: text)).modifyHead (line ++ '\n' :: ·) := by
  have hone : ¬ ['\n', '\n'] <+: '\n' :: c :: text := by simp [hc.symm]
  rw [Text.splitOn_front hline, Text.splitOn_cons (by decide) hone]
  cases Text.splitOn ['\n', '\n'] (c :: text) with
  | nil => rfl
  | cons piece pieces => simp [List.modifyHead]

/-- An empty line ends the block. -/
theorem splitOn_blank {line : Text} (hline : '\n' ∉ line) (text : Text) :
    Text.splitOn ['\n', '\n'] (line ++ '\n' :: '\n' :: text) =
      line :: Text.splitOn ['\n', '\n'] text := by
  have hblank : Text.splitOn ['\n', '\n'] ('\n' :: '\n' :: text) =
      [] :: Text.splitOn ['\n', '\n'] text := Text.splitOn_append (by decide) text
  rw [Text.splitOn_front hline, hblank, List.modifyHead, List.append_nil]

/-! ## Events as they are sent -/

/-- An event: the text of its object behind `data:` and perhaps one space, and perhaps a name. -/
structure Sent where
  name : Option Text
  space : Bool
  text : Text
  value : Value
  lineEnd : LineEnd

namespace Sent

def dataLine (s : Sent) : Text := "data:".toList ++ ((if s.space then [' '] else []) ++ s.text)

/-- The line in front of the data, with its end. -/
def nameText (s : Sent) (e : Text) : Text :=
  match s.name with
  | none => []
  | some name => "event: ".toList ++ name ++ e

def encode (s : Sent) : Text :=
  s.nameText s.lineEnd.text ++ (s.dataLine ++ (s.lineEnd.text ++ s.lineEnd.text))

/-- What the splitting leaves of an event. -/
def block (s : Sent) : Text := s.nameText ['\n'] ++ s.dataLine

/-- An object on one line. -/
structure Valid (L : Library) (s : Sent) : Prop where
  loads : L.loads (String.ofList s.text) = .ok s.value
  object : s.value.isObject = true
  brace : s.text.head? = some '\x7b'
  oneLine : OneLine s.text
  name : ∀ name, s.name = some name → OneLine name

variable {L : Library} {s : Sent}

theorem Valid.dataLine (h : s.Valid L) : OneLine s.dataLine := by
  refine OneLine.append (by decide) (OneLine.append ?_ h.oneLine)
  cases s.space <;> decide

theorem dataLine_head (s : Sent) (text : Text) : (s.dataLine ++ text).head? = some 'd' := rfl

theorem normalise_nameText (h : s.Valid L) {line : Text} (hline : line.head? = some 'd') :
    normalise (s.nameText s.lineEnd.text ++ line) = s.nameText ['\n'] ++ normalise line := by
  rw [nameText, nameText]
  cases hname : s.name with
  | none => rfl
  | some name =>
    have hone : OneLine ("event: ".toList ++ name) := OneLine.append (by decide) (h.name name hname)
    have hhead : s.lineEnd = .cr → line.head? ≠ some '\n' := fun _ => by rw [hline]; decide
    simp only
    rw [List.append_assoc _ s.lineEnd.text, normalise_line hone hhead, List.append_assoc _ ['\n'],
      List.singleton_append]

/-- **The ends of the lines of an event become line feeds.** -/
theorem normalise_encode (h : s.Valid L) {text : Text} (htext : text.head? ≠ some '\n') :
    normalise (s.encode ++ text) = s.block ++ '\n' :: '\n' :: normalise text := by
  rw [encode, List.append_assoc, List.append_assoc, normalise_nameText h (dataLine_head s _), List.append_assoc,
    normalise_line h.dataLine (s.lineEnd.text_head text), normalise_end fun _ => htext, block,
    List.append_assoc]

theorem splitOn_nameText (h : s.Valid L) {line : Text} (hline : line.head? = some 'd') :
    Text.splitOn ['\n', '\n'] (s.nameText ['\n'] ++ line) =
      (Text.splitOn ['\n', '\n'] line).modifyHead (s.nameText ['\n'] ++ ·) := by
  obtain ⟨rest, rfl⟩ := List.head?_eq_some_iff.1 hline
  rw [nameText]
  cases hname : s.name with
  | none =>
    simp only [List.nil_append]
    cases Text.splitOn ['\n', '\n'] ('d' :: rest) <;> rfl
  | some name =>
    have hone : OneLine ("event: ".toList ++ name) := OneLine.append (by decide) (h.name name hname)
    simp only [List.append_assoc _ ['\n'], List.singleton_append]
    exact splitOn_line (OneLine.not_mem hone).1 (by decide) rest

theorem splitOn_encode (h : s.Valid L) (text : Text) :
    Text.splitOn ['\n', '\n'] (s.block ++ '\n' :: '\n' :: text) =
      s.block :: Text.splitOn ['\n', '\n'] text := by
  rw [block, List.append_assoc, splitOn_nameText h (dataLine_head s _),
    splitOn_blank (OneLine.not_mem h.dataLine).1]
  rfl

/-- A line without a line feed is one piece. -/
theorem splitOn_one {line : Text} (hline : '\n' ∉ line) : Text.splitOn ['\n'] line = [line] := by
  have h := @Text.splitOn_front _ _ '\n' [] line hline []
  rwa [List.append_nil, Text.splitOn_nil, List.modifyHead, List.append_nil] at h

theorem Valid.dataLines_block (h : s.Valid L) : dataLines s.block = [s.text] := by
  have hdata : dataLines s.dataLine = [s.text] := by
    obtain ⟨rest, hrest⟩ := List.head?_eq_some_iff.1 h.brace
    rw [dataLines, splitOn_one (OneLine.not_mem h.dataLine).1, Sent.dataLine, hrest]
    cases s.space <;> rfl
  rw [block, nameText]
  cases hname : s.name with
  | none => exact hdata
  | some name =>
    have hone : OneLine ("event: ".toList ++ name) := OneLine.append (by decide) (h.name name hname)
    have hevent : ¬ "data:".toList <+: "event: ".toList ++ name := fun hprefix =>
      absurd (List.cons_prefix_cons.1 hprefix).1 (by decide)
    rw [dataLines] at hdata ⊢
    simp only
    rw [List.append_assoc _ ['\n'], Text.splitOn_front (OneLine.not_mem hone).1,
      Text.splitOn_append (by decide), List.modifyHead, List.append_nil, List.filterMap_cons,
      if_neg hevent]
    exact hdata

theorem encode_head (s : Sent) (text : Text) : (s.encode ++ text).head? ≠ some '\n' := by
  rw [encode, nameText]
  cases s.name with
  | none => exact fun h : some 'd' = some '\n' => absurd (Option.some.inj h) (by decide)
  | some name => exact fun h : some 'e' = some '\n' => absurd (Option.some.inj h) (by decide)

end Sent

/-! ## Streams -/

def encodeAll (sent : List Sent) : Text := (sent.map Sent.encode).flatten

theorem encodeAll_cons (s : Sent) (sent : List Sent) :
    encodeAll (s :: sent) = s.encode ++ encodeAll sent := rfl

def doneLine : Text := "data: [DONE]".toList

/-- The last block of a stream, if it is sent. -/
def doneText : Option LineEnd → Text
  | none => []
  | some e => doneLine ++ (e.text ++ e.text)

/-- The bytes of a stream. -/
def encodeStream (sent : List Sent) (done : Option LineEnd) : Bytes :=
  utf8 (encodeAll sent ++ doneText done)

section Streams

variable {L : Library}

theorem encodeAll_head (sent : List Sent) {text : Text} (htext : text.head? ≠ some '\n') :
    (encodeAll sent ++ text).head? ≠ some '\n' := by
  cases sent with
  | nil => exact htext
  | cons s sent =>
    rw [encodeAll_cons, List.append_assoc]
    exact s.encode_head _

/-- The blocks of the events stand in front. -/
theorem splitOn_encodeAll {text : Text} (htext : text.head? ≠ some '\n') : ∀ {sent : List Sent},
    (∀ s ∈ sent, s.Valid L) → Text.splitOn ['\n', '\n'] (normalise (encodeAll sent ++ text)) =
      sent.map Sent.block ++ Text.splitOn ['\n', '\n'] (normalise text)
  | [], _ => rfl
  | s :: sent, h => by
    rw [List.forall_mem_cons] at h
    rw [encodeAll_cons, List.append_assoc, Sent.normalise_encode h.1 (encodeAll_head sent htext),
      Sent.splitOn_encode h.1, splitOn_encodeAll htext h.2, List.map_cons, List.cons_append]

theorem normalise_done (e : LineEnd) : normalise (doneText (some e)) = doneLine ++ ['\n', '\n'] := by
  cases e <;> decide

theorem doneText_head (done : Option LineEnd) : (doneText done).head? ≠ some '\n' := by
  cases done with
  | none => exact nofun
  | some e => cases e <;> decide

theorem splitOn_done (e : LineEnd) :
    Text.splitOn ['\n', '\n'] (normalise (doneText (some e))) = [doneLine, []] := by
  rw [normalise_done]
  decide

theorem sseBlocks_done : sseBlocks L [doneLine] = .ok [] := by
  have hlines : dataLines doneLine = ["[DONE]".toList] := by decide
  rw [sseBlocks, hlines]
  rfl

theorem sseBlocks_sent : ∀ {sent : List Sent} {blocks : List Text} {events : List Value},
    (∀ s ∈ sent, s.Valid L) → sseBlocks L blocks = .ok events →
      sseBlocks L (sent.map Sent.block ++ blocks) = .ok (sent.map Sent.value ++ events)
  | [], _, _, _, h => h
  | s :: sent, blocks, events, hvalid, h => by
    rw [List.forall_mem_cons] at hvalid
    have hbrace : (s.text == "[DONE]".toList) = false := by
      obtain ⟨rest, hrest⟩ := List.head?_eq_some_iff.1 hvalid.1.brace
      rw [hrest]
      rfl
    have hone : List.intercalate ['\n'] [s.text] = s.text := by simp [List.intercalate]
    rw [List.map_cons, List.cons_append, sseBlocks, hvalid.1.dataLines_block]
    simp only [hone, hbrace, List.isEmpty_cons, Bool.or_self, Bool.false_eq_true, if_false,
      hvalid.1.loads, sseBlocks_sent hvalid.2 h, bind, Except.bind, hvalid.1.object, Except.failIf]
    rfl

theorem sseEvents_eq {raw : Bytes} {text : Text} {pieces : List Text}
    (hraw : L.decodeUtf8 raw = .ok (String.ofList text))
    (hpieces : Text.splitOn ['\n', '\n'] (normalise text) = pieces) : sseEvents L raw =
      if (pieces.getLastD []).all isSpace = false then .error "Unterminated SSE event"
      else sseBlocks L pieces.dropLast := by
  subst hpieces
  have hloop : sseEvents L raw = (do
      Except.failIf (((Text.splitOn ['\n', '\n'] (normalise text)).getLastD []).all isSpace = false)
        "Unterminated SSE event"
      sseBlocks L (Text.splitOn ['\n', '\n'] (normalise text)).dropLast) := by
    rw [sseEvents, hraw]
    simp only [bind, Except.bind, String.toList_ofList]
    rfl
  rw [hloop, Except.failIf]
  split <;> rfl

/-- **A stream is read back.** -/
theorem sseEvents_encode {sent : List Sent} (hvalid : ∀ s ∈ sent, s.Valid L) (done : Option LineEnd)
    {raw : Bytes} (hraw : L.decodeUtf8 raw = .ok (String.ofList (encodeAll sent ++ doneText done))) :
    sseEvents L raw = .ok (sent.map Sent.value) := by
  have hpieces := splitOn_encodeAll (doneText_head done) hvalid
  rw [sseEvents_eq hraw hpieces]
  cases done with
  | none =>
    have hnone : Text.splitOn ['\n', '\n'] (normalise (doneText none)) = [[]] := rfl
    have hblocks := sseBlocks_sent hvalid (rfl : sseBlocks L [] = .ok [])
    rw [List.append_nil, List.append_nil] at hblocks
    rw [hnone, List.dropLast_concat, hblocks, List.getLastD_concat]
    rfl
  | some e =>
    have hblocks := sseBlocks_sent hvalid sseBlocks_done
    rw [List.append_nil] at hblocks
    rw [splitOn_done, ← List.singleton_append, ← List.append_assoc, List.dropLast_concat, hblocks,
      List.getLastD_concat]
    rfl

/-! ## Cut streams -/

/-- A text that begins like UTF-8 of another begins like it. -/
theorem prefix_of_utf8 {a b : Text} (h : utf8 a <+: utf8 b) : a <+: b := by
  obtain ⟨rest, hrest⟩ := h
  refine List.isPrefix_of_utf8Encode_append_eq_utf8Encode rest.toByteArray ?_
  rw [List.utf8Encode, List.utf8Encode, ← List.toByteArray_append]
  exact congrArg List.toByteArray hrest

theorem prefix_append_cases {α : Type} {part a b : List α} (h : part <+: a ++ b) :
    part <+: a ∨ ∃ rest, rest ≠ [] ∧ rest <+: b ∧ part = a ++ rest := by
  rcases List.prefix_or_prefix_of_prefix h (List.prefix_append a b) with hfront | ⟨rest, rfl⟩
  · exact .inl hfront
  · by_cases hrest : rest = []
    · rw [hrest, List.append_nil]
      exact .inl List.prefix_rfl
    · exact .inr ⟨rest, hrest, List.prefix_append_right_inj a |>.1 h, rfl⟩

theorem head_of_prefix {α : Type} {c d : α} {part whole : List α} (h : c :: part <+: whole)
    (hwhole : whole.head? = some d) : c = d := by
  obtain ⟨rest, rfl⟩ := h
  exact Option.some.inj hwhole

/-- What is left of the end of a line ends it. -/
theorem LineEnd.part {e : LineEnd} {part : Text} (hne : part ≠ []) (h : part <+: e.text) :
    ∃ e' : LineEnd, part = e'.text := by
  cases e with
  | lf =>
    rcases List.prefix_concat_iff.1 (show part <+: [] ++ ['\n'] from h) with hpart | hpart
    · exact ⟨.lf, hpart⟩
    · exact absurd (List.prefix_nil.1 hpart) hne
  | cr =>
    rcases List.prefix_concat_iff.1 (show part <+: [] ++ ['\r'] from h) with hpart | hpart
    · exact ⟨.cr, hpart⟩
    · exact absurd (List.prefix_nil.1 hpart) hne
  | crlf =>
    rcases List.prefix_concat_iff.1 (show part <+: ['\r'] ++ ['\n'] from h) with hpart | hpart
    · exact ⟨.crlf, hpart⟩
    · rcases List.prefix_concat_iff.1 (show part <+: [] ++ ['\r'] from hpart) with hpart | hpart
      · exact ⟨.cr, hpart⟩
      · exact absurd (List.prefix_nil.1 hpart) hne

/-- The front of a data line, perhaps with a part of its end, is one line. -/
theorem normalise_dataLine {s : Sent} (h : s.Valid L) {part : Text} (hne : part ≠ [])
    (hpart : part <+: s.dataLine ++ s.lineEnd.text) :
    ∃ line, line.head? = some 'd' ∧ '\n' ∉ line ∧
      (normalise part = line ∨ normalise part = line ++ ['\n']) := by
  have hone := h.dataLine
  have hnormal : ∀ {line : Text}, OneLine line → ∀ rest, normalise (line ++ rest) =
      line ++ normalise rest := fun hline rest => normalise_front hline rest
  rcases prefix_append_cases hpart with hfront | ⟨rest, hrest, hend, rfl⟩
  · have hline : OneLine part := fun c hc => hone c (hfront.subset hc)
    refine ⟨part, ?_, (OneLine.not_mem hline).1, .inl ?_⟩
    · cases part with
      | nil => exact absurd rfl hne
      | cons c part =>
        have hc : c = 'd' := head_of_prefix hfront rfl
        rw [hc, List.head?_cons]
    · have hall := hnormal hline []
      rwa [List.append_nil, show normalise [] = [] from rfl, List.append_nil] at hall
  · obtain ⟨e, rfl⟩ := LineEnd.part hrest hend
    refine ⟨s.dataLine, rfl, (OneLine.not_mem hone).1, .inr ?_⟩
    have hall := @normalise_end e [] (fun _ => nofun)
    rw [List.append_nil, show normalise [] = [] from rfl] at hall
    rw [hnormal hone, hall]

theorem splitOn_last {line : Text} (hline : '\n' ∉ line) :
    Text.splitOn ['\n', '\n'] line = [line] ∧
      Text.splitOn ['\n', '\n'] (line ++ ['\n']) = [line ++ ['\n']] := by
  have hfront := fun text => @Text.splitOn_front _ _ '\n' ['\n'] line hline text
  refine ⟨?_, hfront _⟩
  have hnil := hfront []
  rwa [List.append_nil, Text.splitOn_nil, List.modifyHead, List.append_nil] at hnil

/-- A text that ends inside a data line is refused. -/
theorem sseEvents_part {before : List Sent} {s : Sent} (hbefore : ∀ s ∈ before, s.Valid L)
    (hs : s.Valid L) {part : Text} (hne : part ≠ []) (hpart : part <+: s.dataLine ++ s.lineEnd.text)
    {raw : Bytes} (hraw : L.decodeUtf8 raw =
      .ok (String.ofList (encodeAll before ++ (s.nameText s.lineEnd.text ++ part)))) :
    sseEvents L raw = .error "Unterminated SSE event" := by
  have hd : part.head? = some 'd' := by
    cases part with
    | nil => exact absurd rfl hne
    | cons c part =>
      have hc : c = 'd' := head_of_prefix hpart rfl
      rw [hc, List.head?_cons]
  obtain ⟨line, hhead, hline, hnormal⟩ := normalise_dataLine hs hne hpart
  have hsplit : Text.splitOn ['\n', '\n'] (normalise part) = [normalise part] := by
    rcases hnormal with hnormal | hnormal <;> rw [hnormal]
    · exact (splitOn_last hline).1
    · exact (splitOn_last hline).2
  have hnhead : (normalise part).head? = some 'd' := by
    obtain ⟨rest, rfl⟩ := List.head?_eq_some_iff.1 hhead
    rcases hnormal with hnormal | hnormal <;> rw [hnormal] <;> rfl
  have htext : (s.nameText s.lineEnd.text ++ part).head? ≠ some '\n' := by
    obtain ⟨rest, rfl⟩ := List.head?_eq_some_iff.1 hd
    rw [Sent.nameText]
    cases s.name with
    | none => exact fun h : some 'd' = some '\n' => absurd (Option.some.inj h) (by decide)
    | some name => exact fun h : some 'e' = some '\n' => absurd (Option.some.inj h) (by decide)
  have hpieces := splitOn_encodeAll htext hbefore
  rw [Sent.normalise_nameText hs hd, Sent.splitOn_nameText hs hnhead, hsplit, List.modifyHead] at hpieces
  have hspace : (s.nameText ['\n'] ++ normalise part).all isSpace = false := by
    obtain ⟨rest, hrest⟩ := List.head?_eq_some_iff.1 hnhead
    rw [hrest, List.all_append, List.all_cons, show isSpace 'd' = false from rfl, Bool.false_and,
      Bool.and_false]
  rw [sseEvents_eq hraw hpieces, List.getLastD_concat, if_pos hspace]

/-- `raw.decode("utf-8")` reads UTF-8 and nothing else. -/
def Library.Utf8 (L : Library) : Prop :=
  ∀ (raw : Bytes) (text : Text), L.decodeUtf8 raw = .ok (String.ofList text) ↔ raw = utf8 text

/-- The front of a stream up to the data line of an event. -/
def upTo (before : List Sent) (s : Sent) : Text := encodeAll before ++ s.nameText s.lineEnd.text

theorem encodeStream_split (before after : List Sent) (s : Sent) (done : Option LineEnd) :
    ∃ rest, encodeStream (before ++ s :: after) done =
      utf8 (upTo before s ++ (s.dataLine ++ s.lineEnd.text) ++ rest) := by
  refine ⟨s.lineEnd.text ++ (encodeAll after ++ doneText done), congrArg utf8 ?_⟩
  simp only [encodeAll, upTo, Sent.encode, List.map_append, List.map_cons, List.flatten_append,
    List.flatten_cons, List.append_assoc]

/-- **A stream that is cut inside a data line is refused.** -/
theorem sseEvents_cut (hutf8 : L.Utf8) {before after : List Sent} {s : Sent}
    (hbefore : ∀ s ∈ before, s.Valid L) (hs : s.Valid L) (done : Option LineEnd) {k : Nat}
    (hlow : (utf8 (upTo before s)).length < k)
    (hhigh : k ≤ (utf8 (upTo before s ++ (s.dataLine ++ s.lineEnd.text))).length) :
    ∃ e, sseEvents L ((encodeStream (before ++ s :: after) done).take k) = .error e := by
  obtain ⟨rest, hstream⟩ := encodeStream_split before after s done
  rw [hstream, ThinkingStudy.utf8_append, List.take_append_of_le_length hhigh]
  cases hdecode : L.decodeUtf8
      ((utf8 (upTo before s ++ (s.dataLine ++ s.lineEnd.text))).take k) with
  | error e => exact ⟨e, by rw [sseEvents, hdecode]; rfl⟩
  | ok text =>
    rw [← String.ofList_toList (s := text)] at hdecode
    have hraw := (hutf8 _ _).1 hdecode
    have hwhole := prefix_of_utf8 (hraw ▸ List.take_prefix k _)
    have hlength : (utf8 text.toList).length = k := by
      rw [← hraw, List.length_take, Nat.min_eq_left hhigh]
    rcases prefix_append_cases hwhole with hshort | ⟨part, hne, hpart, htext⟩
    · obtain ⟨missing, hmissing⟩ := hshort
      rw [← hmissing, ThinkingStudy.utf8_append, List.length_append, hlength] at hlow
      omega
    · have hfront : upTo before s ++ part =
          encodeAll before ++ (s.nameText s.lineEnd.text ++ part) := List.append_assoc ..
      rw [htext, hfront] at hdecode
      exact ⟨_, sseEvents_part hbefore hs hne hpart hdecode⟩

end Streams

end ReedCode.ParityReport
