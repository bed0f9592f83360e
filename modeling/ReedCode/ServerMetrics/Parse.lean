import Mathlib.Data.List.Sort
import Mathlib.Data.Prod.Lex
import Mathlib.Data.String.Basic
import ReedCode.Lib.FinMap
import ReedCode.Lib.Lines
import ReedCode.PyText

/-!
# Reading the server's metrics

Literal transcription of the tables and of `parse_metrics` of `server_metrics.py`.

* `names` — the series the collector reads, from the tables of counters, histograms and gauges.
* `sample`, `label` — the patterns `SAMPLE` and `LABEL`, with the match their backtracking finds
  first; they run on the lines of `str.splitlines`, which hold no line feed.
* `parseMetrics` — the loop over the lines.
-/

set_option autoImplicit false

namespace ReedCode.ServerMetrics

open ReedCode.PyText

abbrev Text := List Char

/-! ## Series -/

def counters : List (Text × List Text) :=
  [("prompt_tokens".toList, ["vllm:prompt_tokens_total".toList, "vllm:prompt_tokens".toList]),
    ("generation_tokens".toList,
      ["vllm:generation_tokens_total".toList, "vllm:generation_tokens".toList]),
    ("prefix_cache_queries_tokens".toList,
      ["vllm:prefix_cache_queries_total".toList, "vllm:prefix_cache_queries".toList]),
    ("prefix_cache_hits_tokens".toList,
      ["vllm:prefix_cache_hits_total".toList, "vllm:prefix_cache_hits".toList]),
    ("requests_finished".toList,
      ["vllm:request_success_total".toList, "vllm:request_success".toList])]

def histograms : List (Text × Text) :=
  [("prefill".toList, "vllm:request_prefill_time_seconds".toList),
    ("decode".toList, "vllm:request_decode_time_seconds".toList),
    ("queue".toList, "vllm:request_queue_time_seconds".toList),
    ("time_to_first_token".toList, "vllm:time_to_first_token_seconds".toList),
    ("end_to_end".toList, "vllm:e2e_request_latency_seconds".toList)]

def gauges : List (Text × List Text) :=
  [("kv_cache_usage_fraction".toList, ["vllm:kv_cache_usage_perc".toList]),
    ("requests_running".toList, ["vllm:num_requests_running".toList]),
    ("requests_waiting".toList, ["vllm:num_requests_waiting".toList])]

/-- `text.removesuffix(suffix)`. -/
def removesuffix (text suffix : Text) : Text :=
  if suffix.isSuffixOf text then text.take (text.length - suffix.length) else text

def processStart : Text := "process_start_time_seconds".toList

/-- `NAMES`. -/
def names : List Text :=
  (counters.flatMap Prod.snd ++ gauges.flatMap Prod.snd) ++
    (histograms.flatMap fun h =>
      ["_count".toList, "_sum".toList, "_created".toList].map (h.2 ++ ·)) ++
    ((counters.flatMap Prod.snd).map fun name =>
      removesuffix name "_total".toList ++ "_created".toList) ++
    [processStart]

/-! ## Patterns -/

def isLetter (c : Char) : Bool :=
  ('a'.toNat ≤ c.toNat && c.toNat ≤ 'z'.toNat) || ('A'.toNat ≤ c.toNat && c.toNat ≤ 'Z'.toNat)

def isDigit (c : Char) : Bool := '0'.toNat ≤ c.toNat && c.toNat ≤ '9'.toNat

/-- `[a-zA-Z_]`, where a label's name begins. -/
def labelStart (c : Char) : Bool := isLetter c || c == '_'

def labelChar (c : Char) : Bool := labelStart c || isDigit c

/-- `[a-zA-Z_:]`, where a metric's name begins. -/
def nameStart (c : Char) : Bool := labelStart c || c == ':'

def nameChar (c : Char) : Bool := nameStart c || isDigit c

/-- `\s+([^\s]+)(?:\s+.*)?$`: the value. -/
def sampleTail : Text → Option Text
  | [] => none
  | c :: text =>
    let value := (text.dropWhile isSpace).takeWhile fun c => !isSpace c
    if isSpace c && !value.isEmpty then some value else none

/-- `(.*)\x7d` in front of the value; the last brace that can stand there is taken. -/
def closing : Text → Option (Text × Text)
  | [] => none
  | c :: text =>
    match closing text with
    | some (raw, value) => some (c :: raw, value)
    | none => if c = '\x7d' then (sampleTail text).map fun value => ([], value) else none

/-- `SAMPLE.fullmatch(line)`: the name, the text between the braces and the value. -/
def sample : Text → Option (Text × Text × Text)
  | [] => none
  | c :: line =>
    if nameStart c then
      let name := c :: line.takeWhile nameChar
      match line.dropWhile nameChar with
      | [] => none
      | d :: rest =>
        if d = '\x7b' then (closing rest).map fun found => (name, found.1, found.2)
        else (sampleTail (d :: rest)).map fun value => (name, [], value)
    else none

/-- `((?:[^"\\]|\\[\\"n])*)"`: the text up to the quote, and what stands behind it. -/
def quoted : Text → Option (Text × Text)
  | [] => none
  | [c] => if c = '\x22' then some ([], []) else none
  | c :: d :: rest =>
    if c = '\x22' then some ([], d :: rest)
    else if c = '\x5c' then
      if d = '\x5c' || d = '\x22' || d = 'n' then
        (quoted rest).map fun found => (c :: d :: found.1, found.2)
      else none
    else (quoted (d :: rest)).map fun found => (c :: found.1, found.2)

/-- `\s*(?:,|$)`: what stands behind a label. -/
def labelEnd (text : Text) : Option Text :=
  match text.dropWhile isSpace with
  | [] => some []
  | c :: rest => if c = ',' then some rest else none

/-- `LABEL.match(raw, cursor)`: name and text of the label, and what stands behind it. -/
def label (raw : Text) : Option ((Text × Text) × Text) :=
  match raw.dropWhile isSpace with
  | [] => none
  | c :: text =>
    if labelStart c then
      match text.dropWhile labelChar with
      | d :: e :: rest =>
        if d = '=' ∧ e = '\x22' then do
          let (value, behind) ← quoted rest
          let left ← labelEnd behind
          pure ((c :: text.takeWhile labelChar, value), left)
        else none
      | _ => none
    else none

/-- `re.sub(r'\\([\\"n])', …)`. -/
def unescape : Text → Text
  | [] => []
  | [c] => [c]
  | c :: d :: rest =>
    if c = '\x5c' then
      if d = 'n' then '\n' :: unescape rest
      else if d = '\x5c' || d = '\x22' then d :: unescape rest
      else c :: unescape (d :: rest)
    else c :: unescape (d :: rest)

/-! ## Parsing -/

/-- `float` and `math.isfinite`. -/
structure Floats (V : Type) where
  float : Text → Option V
  isfinite : V → Bool

abbrev Labels := List (Text × Text)

/-- The loop over the labels; every label takes at least one character. -/
def labelsFor : Nat → Text → Labels → Except Text Labels
  | 0, _, labels => .ok labels
  | fuel + 1, raw, labels =>
    if raw = [] then .ok labels
    else
      match label raw with
      | none => .error "Invalid metric labels".toList
      | some ((name, value), rest) =>
        if name ∈ labels.map Prod.fst then .error "Invalid metric labels".toList
        else labelsFor fuel rest (labels ++ [(name, unescape value)])

def parseLabels (raw : Text) : Except Text Labels := labelsFor raw.length raw []

/-- `tuple(sorted(labels.items()))`. -/
def labelKey (labels : Labels) : Labels := labels.insertionSort fun a b => toLex a ≤ toLex b

variable {V : Type}

/-- The series a line gives, if it gives one. -/
def readSample (F : Floats V) (model_name : Option Text) (line : Text) :
    Except Text (Option (Text × Labels × V)) :=
  match sample (strip line) with
  | none => .ok none
  | some (name, raw, number) =>
    if name ∉ names then .ok none
    else do
      let labels ← parseLabels raw
      if model_name ≠ none ∧ name ≠ processStart ∧
          labels.lookup "model_name".toList ≠ model_name then
        pure none
      else
        match F.float number with
        | none => pure none
        | some value =>
          if F.isfinite value then pure (some (name, labelKey labels, value)) else pure none

abbrev Metrics (V : Type) := FinMap Text (FinMap Labels V)

def addSeries (metrics : Metrics V) : Text × Labels × V → Except Text (Metrics V)
  | (name, key, value) =>
    let series := (metrics.get? name).getD FinMap.empty
    if series.contains key then .error "Duplicate metric series".toList
    else .ok (metrics.insert name (series.insert key value))

def parseLine (F : Floats V) (model_name : Option Text) (metrics : Metrics V) (line : Text) :
    Except Text (Metrics V) := do
  match ← readSample F model_name line with
  | none => pure metrics
  | some series => addSeries metrics series

def parseMetrics (F : Floats V) (body : Text) (model_name : Option Text) :
    Except Text (Metrics V) :=
  (Lines.splitlines body).foldlM (parseLine F model_name) FinMap.empty

end ReedCode.ServerMetrics
