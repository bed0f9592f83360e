import ReedCode.Lib.ChunkedCoding
import ReedCode.PyInt

/-!
# The body of a captured request

`CaptureHandler._body` of `readiness/capture_proxy.py`.  A stream is what the client sends until it
closes; a read returns less than it is asked for only at its end.

* `readline` — `rfile.readline(limit)`, with what is left of the stream.
* `chunks` — the loop over the chunks.
* `body` — the request body and the rest of the stream.
-/

set_option autoImplicit false

namespace ReedCode.CaptureProxy

open ChunkedCoding

/-! ## Streams -/

/-- Up to the first line feed and with it. -/
def lineOf : List UInt8 → List UInt8
  | [] => []
  | b :: stream => if b = 10 then [b] else b :: lineOf stream

/-- `rfile.readline(limit)`. -/
def readline (limit : Nat) (stream : List UInt8) : List UInt8 × List UInt8 :=
  (lineOf (stream.take limit), stream.drop (lineOf (stream.take limit)).length)

theorem lineOf_isPrefixOf : ∀ stream : List UInt8, lineOf stream <+: stream
  | [] => List.prefix_rfl
  | b :: stream => by
    rw [lineOf]
    split
    · exact ⟨stream, rfl⟩
    · exact List.cons_prefix_cons.2 ⟨rfl, lineOf_isPrefixOf stream⟩

/-- A line and what is left are the stream. -/
theorem readline_append {limit : Nat} {stream line after : List UInt8}
    (h : readline limit stream = (line, after)) : stream = line ++ after := by
  rw [readline, Prod.mk.injEq] at h
  obtain ⟨rfl, rfl⟩ := h
  exact List.prefix_iff_eq_append.1 ((lineOf_isPrefixOf _).trans (List.take_prefix _ _)) |>.symm

theorem lineOf_line : ∀ {front : List UInt8} (after : List UInt8), 10 ∉ front →
    lineOf (front ++ 10 :: after) = front ++ [10]
  | [], _, _ => rfl
  | b :: front, after, h => by
    rw [List.mem_cons, not_or] at h
    rw [List.cons_append, lineOf, if_neg (Ne.symm h.1), lineOf_line after h.2, List.cons_append]

/-- A line that is short enough is read as a whole. -/
theorem readline_line {limit : Nat} {front : List UInt8} (after : List UInt8) (hfront : 10 ∉ front)
    (hlen : (front ++ [10]).length ≤ limit) :
    readline limit (front ++ [10] ++ after) = (front ++ [10], after) := by
  have htake : (front ++ [10] ++ after).take limit =
      front ++ 10 :: after.take (limit - (front ++ [10]).length) := by
    rw [List.take_append, List.take_of_length_le hlen, List.append_assoc, List.singleton_append]
  rw [readline, htake, lineOf_line _ hfront, List.drop_left]

theorem readline_snd_length (limit : Nat) (stream : List UInt8) :
    (readline limit stream).2.length ≤ stream.length := by
  rw [readline, List.length_drop]
  exact Nat.sub_le ..

/-! ## Chunks -/

/-- What a capture records at most. -/
def captureLimit : Nat := 8 * 1024 * 1024

/-- `int(line.split(b";", 1)[0].strip(), 16)`. -/
def chunkSize (line : List UInt8) : Option Int :=
  PyInt.int16 (PyInt.stripBy PyInt.isByteSpace (line.takeWhile (· ≠ 59)))

/-- The loop, behind `total` bytes of data. -/
def chunks (total : Nat) (stream : List UInt8) : Except String (List UInt8 × List UInt8) :=
  match chunkSize (readline 100 stream).1 with
  | none => .error "ValueError"
  | some size =>
    let after := (readline 100 stream).2
    if size < 0 ∨ (captureLimit : Int) < total + size then
      .error "request body exceeds capture limit"
    else if size = 0 then
      if (readline 8192 after).1 ≠ crlf then .error "request trailers are unsupported"
      else .ok ([], (readline 8192 after).2)
    else if h : (after.take size.toNat).length ≠ size.toNat ∨
        (after.drop size.toNat).take 2 ≠ crlf then
      .error "incomplete chunk"
    else
      (chunks (total + size.toNat) (after.drop (size.toNat + 2))).map fun (body, rest) =>
        (after.take size.toNat ++ body, rest)
termination_by stream.length
decreasing_by
  show (after.drop (size.toNat + 2)).length < stream.length
  rw [not_or, not_not, not_not] at h
  have htwo := congrArg List.length h.2
  have hafter : after.length ≤ stream.length := readline_snd_length 100 stream
  rw [List.length_take, List.length_drop] at htwo
  rw [List.length_drop]
  simp only [crlf, List.length_cons, List.length_nil] at htwo
  omega

/-! ## Requests -/

/-- The fields that frame a request, as the parsed headers hold them, and the stream behind them. -/
structure Request where
  contentLengths : List String
  transferEncodings : List String
  stream : List UInt8

/-- `headers.get("Transfer-Encoding", "").lower()`; header text is Latin-1, where no other character
has an ASCII letter as its lower case. -/
def Request.transfer (r : Request) : String := (r.transferEncodings.head?.getD "").toLower

/-- A body of an announced length. -/
def sizedBody (lengths : List String) (stream : List UInt8) :
    Except String (List UInt8 × List UInt8) :=
  match (lengths.head?.map PyInt.int10).getD (some 0) with
  | none => .error "ValueError"
  | some size =>
    if size < 0 ∨ (captureLimit : Int) < size then .error "request body exceeds capture limit"
    else if (stream.take size.toNat).length ≠ size.toNat then .error "incomplete request body"
    else .ok (stream.take size.toNat, stream.drop size.toNat)

def body (r : Request) : Except String (List UInt8 × List UInt8) :=
  if 1 < r.contentLengths.length ∨ (r.contentLengths ≠ [] ∧ r.transfer ≠ "") then
    .error "ambiguous request framing"
  else if r.transfer ≠ "" then
    if r.transfer ≠ "chunked" then .error "unsupported transfer encoding" else chunks 0 r.stream
  else sizedBody r.contentLengths r.stream

end ReedCode.CaptureProxy
