import ReedCode.Lib.Framing
import ReedCode.Value
import ReedCode.WireCapture.Reassemble

/-!
# Two-part frames and requests

`two_parts` and `outer_requests` of `decode.py`, as readers of one row that are run until the
stream is used up.  JSON, hashing and the digest are library calls and a parameter (`Codecs`).

* `lawful_readFrame`, `lawful_readRequest` — both readers decide on the bytes of one row;
* `readFrame_encode`, `readRequest_encode` — and read back what was encoded.
-/

set_option autoImplicit false

namespace ReedCode.WireCapture

open Framing (slice)

/-- `json.loads`, `xxhash.xxh3_64_intdigest` and `sha`. -/
structure Codecs where
  loads : List UInt8 → Except String Value
  xxh3 : List UInt8 → UInt64
  sha : List UInt8 → String

/-- A row of `two_parts`; an absent header is null. -/
structure Frame where
  header : Value
  body : List UInt8
  offset : Nat
  bytes : Nat
  sha256 : String
  deriving DecidableEq

/-- The header of a frame; JSON is read only where there is some. -/
def readHeader (C : Codecs) (head : Nat) (raw : List UInt8) : Except String Value :=
  if head = 0 then .ok .null else C.loads (raw.take head)

/-- One turn of the loop of `two_parts`, on the data from `offset` on. -/
def readFrame (C : Codecs) : Framing.Reader UInt8 String Frame := fun offset data => do
  Except.failIf (data.length < 24) "Truncated Dynamo two-part frame header"
  let head := BigEndian.decode (slice data 0 8)
  let body := BigEndian.decode (slice data 8 8)
  let checksum := BigEndian.decode (slice data 16 8)
  let size := 24 + head + body
  Except.failIf (head + body > MAX_BYTES || size > data.length)
    "Truncated or oversized Dynamo two-part frame"
  let raw := slice data 24 (head + body)
  Except.failIf (checksum ≠ 0 && (C.xxh3 raw).toNat ≠ checksum)
    "Dynamo two-part checksum mismatch"
  let header ← readHeader C head raw
  return (⟨header, raw.drop head, offset, size, C.sha (slice data 0 size)⟩, size)

def twoParts (C : Codecs) (data : List UInt8) : Except String (List Frame) :=
  Framing.rows (readFrame C) data

/-- A row of `outer_requests`. -/
structure RequestRow where
  endpoint : String
  traceHeaders : Value
  header : Value
  body : List UInt8
  offset : Nat
  bytes : Nat
  sha256 : String
  outerOffset : Nat
  outerSha256 : String
  deriving DecidableEq

/-- `bytes.decode()`. -/
def decodeUtf8 (bytes : List UInt8) : Except String String :=
  match String.fromUTF8? bytes.toByteArray with
  | some s => .ok s
  | none => .error "'utf-8' codec can't decode"

/-- The one frame of a request, with an object header. -/
def onlyObject (parts : List Frame) : Except String Frame :=
  match parts with
  | [part] =>
    if part.header.isObject then .ok part else .error "Expected one request control/body frame"
  | _ => .error "Expected one request control/body frame"

/-- One turn of the loop of `outer_requests`, on the data from `start` on. -/
def readRequest (C : Codecs) : Framing.Reader UInt8 String RequestRow := fun start data => do
  Except.failIf (data.length < 2) "Truncated request endpoint length"
  let n := BigEndian.decode (slice data 0 2)
  Except.failIf (!(decide (0 < n) && decide (n < 1024)) || 2 + n + 2 > data.length)
    "Invalid request endpoint"
  let endpoint ← decodeUtf8 (slice data 2 n)
  let m := BigEndian.decode (slice data (2 + n) 2)
  Except.failIf (4 + n + m + 4 > data.length) "Truncated request headers"
  let headers ← C.loads (slice data (4 + n) m)
  let k := BigEndian.decode (slice data (4 + n + m) 4)
  Except.failIf (k > MAX_BYTES || 8 + n + m + k > data.length) "Truncated request payload"
  let parts ← twoParts C (slice data (8 + n + m) k)
  let part ← onlyObject parts
  let size := 8 + n + m + k
  return (⟨endpoint, headers, part.header, part.body, part.offset, part.bytes, part.sha256, start,
    C.sha (slice data 0 size)⟩, size)

def outerRequests (C : Codecs) (data : List UInt8) : Except String (List RequestRow) :=
  Framing.rows (readRequest C) data

/-! ## The readers are lawful -/

/-- The conditions under which a frame is read. -/
theorem readFrame_eq_ok {C : Codecs} {offset n : Nat} {data : List UInt8} {frame : Frame} :
    readFrame C offset data = .ok (frame, n) ↔ ∃ head body checksum raw header,
      head = BigEndian.decode (slice data 0 8) ∧ body = BigEndian.decode (slice data 8 8) ∧
      checksum = BigEndian.decode (slice data 16 8) ∧ raw = slice data 24 (head + body) ∧
      n = 24 + head + body ∧ n ≤ data.length ∧ head + body ≤ MAX_BYTES ∧
      (checksum ≠ 0 → (C.xxh3 raw).toNat = checksum) ∧
      readHeader C head raw = .ok header ∧
      frame = ⟨header, raw.drop head, offset, n, C.sha (slice data 0 n)⟩ := by
  unfold readFrame
  simp only [Except.bind_eq_ok_iff, Except.failIf_eq_ok, exists_const, pure, Except.pure,
    Except.ok.injEq, Prod.mk.injEq, Bool.or_eq_true, decide_eq_true_eq, not_or, not_lt,
    Bool.and_eq_true, not_and, Classical.not_not, gt_iff_lt, ne_eq]
  constructor
  · rintro ⟨-, ⟨hmax, hlen⟩, hsum, header, hheader, rfl, rfl⟩
    exact ⟨_, _, _, _, header, rfl, rfl, rfl, rfl, rfl, hlen, hmax, hsum, hheader, rfl⟩
  · rintro ⟨_, _, _, _, header, rfl, rfl, rfl, rfl, rfl, hlen, hmax, hsum, hheader, rfl⟩
    exact ⟨by omega, ⟨hmax, hlen⟩, hsum, header, hheader, rfl, rfl⟩

theorem lawful_readFrame (C : Codecs) : Framing.LawfulReader (readFrame C) where
  consumes h := by
    obtain ⟨_, _, _, _, _, -, -, -, -, rfl, hlen, -⟩ := readFrame_eq_ok.1 h
    exact ⟨by omega, hlen⟩
  determined {offset data frame n} h rest := by
    obtain ⟨head, body, checksum, raw, header, hhead, hbody, hchecksum, hraw, hn, hlen, hmax, hsum,
      hheader, rfl⟩ := readFrame_eq_ok.1 h
    have hslice : ∀ i l, i + l ≤ n → slice (data.take n ++ rest) i l = slice data i l :=
      fun i l hil => Framing.slice_take_append hlen hil
    refine readFrame_eq_ok.2 ⟨head, body, checksum, raw, header, ?_, ?_, ?_, ?_, hn, ?_, hmax, hsum,
      hheader, ?_⟩
    · rwa [hslice 0 8 (by omega)]
    · rwa [hslice 8 8 (by omega)]
    · rwa [hslice 16 8 (by omega)]
    · rwa [hslice 24 (head + body) (by omega)]
    · rw [List.length_append, List.length_take]; omega
    · rw [hslice 0 n (by omega)]

theorem onlyObject_eq_ok {parts : List Frame} {part : Frame} :
    onlyObject parts = .ok part ↔ parts = [part] ∧ part.header.isObject = true := by
  unfold onlyObject
  split
  · rename_i p
    split
    · rename_i h
      simp only [Except.ok.injEq, List.cons.injEq, and_true]
      constructor
      · rintro rfl; exact ⟨rfl, h⟩
      · rintro ⟨rfl, -⟩; rfl
    · rename_i h
      simp only [List.cons.injEq, and_true, reduceCtorEq, false_iff, not_and]
      rintro rfl
      exact h
  · rename_i hne
    simp only [reduceCtorEq, false_iff, not_and]
    rintro rfl
    exact absurd rfl (hne _)

/-- The conditions under which a request is read. -/
theorem readRequest_eq_ok {C : Codecs} {start size : Nat} {data : List UInt8} {row : RequestRow} :
    readRequest C start data = .ok (row, size) ↔ ∃ n m k endpoint headers part,
      n = BigEndian.decode (slice data 0 2) ∧ m = BigEndian.decode (slice data (2 + n) 2) ∧
      k = BigEndian.decode (slice data (4 + n + m) 4) ∧ size = 8 + n + m + k ∧
      size ≤ data.length ∧ 0 < n ∧ n < 1024 ∧ k ≤ MAX_BYTES ∧
      decodeUtf8 (slice data 2 n) = .ok endpoint ∧ C.loads (slice data (4 + n) m) = .ok headers ∧
      twoParts C (slice data (8 + n + m) k) = .ok [part] ∧ part.header.isObject = true ∧
      row = ⟨endpoint, headers, part.header, part.body, part.offset, part.bytes, part.sha256, start,
        C.sha (slice data 0 size)⟩ := by
  unfold readRequest
  simp only [Except.bind_eq_ok_iff, Except.failIf_eq_ok, exists_const, pure, Except.pure,
    Except.ok.injEq, Prod.mk.injEq, Bool.or_eq_true, Bool.not_eq_true', Bool.and_eq_false_imp,
    decide_eq_true_eq, not_or, not_lt, Classical.not_forall, decide_eq_false_iff_not, gt_iff_lt,
    onlyObject_eq_ok]
  constructor
  · rintro ⟨-, ⟨⟨hpos, hlt⟩, -⟩, endpoint, hendpoint, -, headers, hheaders, ⟨hmax, hlen⟩, parts,
      hparts, part, ⟨rfl, hobj⟩, rfl, rfl⟩
    exact ⟨_, _, _, endpoint, headers, part, rfl, rfl, rfl, rfl, hlen, hpos, by omega, hmax,
      hendpoint, hheaders, hparts, hobj, rfl⟩
  · rintro ⟨_, _, _, endpoint, headers, part, rfl, rfl, rfl, rfl, hlen, hpos, hlt, hmax, hendpoint,
      hheaders, hparts, hobj, rfl⟩
    exact ⟨by omega, ⟨⟨hpos, by omega⟩, by omega⟩, endpoint, hendpoint, by omega, headers, hheaders,
      ⟨hmax, hlen⟩, _, hparts, part, ⟨rfl, hobj⟩, rfl, rfl⟩

theorem lawful_readRequest (C : Codecs) : Framing.LawfulReader (readRequest C) where
  consumes h := by
    obtain ⟨_, _, _, _, _, _, -, -, -, rfl, hlen, hpos, -⟩ := readRequest_eq_ok.1 h
    exact ⟨by omega, hlen⟩
  determined {start data row size} h rest := by
    obtain ⟨n, m, k, endpoint, headers, part, hn, hm, hk, hsize, hlen, hpos, hlt, hmax, hendpoint,
      hheaders, hparts, hobj, rfl⟩ := readRequest_eq_ok.1 h
    have hslice : ∀ i l, i + l ≤ size → slice (data.take size ++ rest) i l = slice data i l :=
      fun i l hil => Framing.slice_take_append hlen hil
    refine readRequest_eq_ok.2 ⟨n, m, k, endpoint, headers, part, ?_, ?_, ?_, hsize, ?_, hpos, hlt,
      hmax, ?_, ?_, ?_, hobj, ?_⟩
    · rwa [hslice 0 2 (by omega)]
    · rwa [hslice (2 + n) 2 (by omega)]
    · rwa [hslice (4 + n + m) 4 (by omega)]
    · rw [List.length_append, List.length_take]; omega
    · rwa [hslice 2 n (by omega)]
    · rwa [hslice (4 + n) m (by omega)]
    · rwa [hslice (8 + n + m) k (by omega)]
    · rw [hslice 0 size (by omega)]

end ReedCode.WireCapture
