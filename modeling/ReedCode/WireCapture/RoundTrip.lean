import ReedCode.WireCapture.Frames

/-!
# Framing round trip

What the sender writes (`TwoPart.encode`, `Request.encode`) and that the decoder reads it back.
JSON encoding is the sender's (`dumps`).

* `readFrame_encode`, `readRequest_encode` — one row;
* `framing_round_trip` — streams of rows, the accounting of every byte, and cuts.
-/

set_option autoImplicit false

namespace ReedCode.WireCapture

open Framing (slice)

/-- A two-part frame to send: a header, if any, a body, and whether it is checksummed. -/
structure TwoPart where
  header : Option Value
  body : List UInt8
  checked : Bool

namespace TwoPart

variable (C : Codecs) (dumps : Value → List UInt8)

def head (f : TwoPart) : List UInt8 := f.header.elim [] dumps

def checksum (f : TwoPart) : Nat :=
  if f.checked then (C.xxh3 (f.head dumps ++ f.body)).toNat else 0

/-- `>QQQ`, then header and body. -/
def encode (f : TwoPart) : List UInt8 :=
  BigEndian.encode 8 (f.head dumps).length ++ (BigEndian.encode 8 f.body.length ++
    (BigEndian.encode 8 (f.checksum C dumps) ++ (f.head dumps ++ f.body)))

/-- The row of a frame that starts at `offset`. -/
def row (offset : Nat) (f : TwoPart) : Frame :=
  ⟨f.header.getD .null, f.body, offset, (f.encode C dumps).length, C.sha (f.encode C dumps)⟩

/-- The frame is not oversized and its header survives JSON. -/
structure Valid (f : TwoPart) : Prop where
  size : (f.head dumps).length + f.body.length ≤ MAX_BYTES
  json : ∀ v, f.header = some v → C.loads (dumps v) = .ok v

@[simp] theorem length_encode (f : TwoPart) :
    (f.encode C dumps).length = 24 + (f.head dumps).length + f.body.length := by
  simp only [encode, List.length_append, BigEndian.length_encode]
  omega

theorem checksum_lt (f : TwoPart) : f.checksum C dumps < 256 ^ 8 := by
  unfold checksum
  split
  · exact (C.xxh3 _).toNat_lt
  · decide

end TwoPart

/-- A request to send. -/
structure Request where
  endpoint : String
  traceHeaders : Value
  frame : TwoPart

namespace Request

variable (C : Codecs) (dumps : Value → List UInt8)

def endpointBytes (r : Request) : List UInt8 := r.endpoint.toByteArray.data.toList

def encode (r : Request) : List UInt8 :=
  BigEndian.encode 2 r.endpointBytes.length ++ (r.endpointBytes ++
    (BigEndian.encode 2 (dumps r.traceHeaders).length ++ (dumps r.traceHeaders ++
      (BigEndian.encode 4 (r.frame.encode C dumps).length ++ r.frame.encode C dumps))))

/-- The row of a request that starts at `start`. -/
def row (start : Nat) (r : Request) : RequestRow :=
  ⟨r.endpoint, r.traceHeaders, r.frame.header.getD .null, r.frame.body, 0,
    (r.frame.encode C dumps).length, C.sha (r.frame.encode C dumps), start,
    C.sha (r.encode C dumps)⟩

/-- The endpoint and the trace headers fit their length fields, the frame carries an object
header, and the encoded frame is within the payload limit. -/
structure Valid (r : Request) : Prop where
  endpoint_pos : 0 < r.endpointBytes.length
  endpoint_lt : r.endpointBytes.length < 1024
  headers_lt : (dumps r.traceHeaders).length < 65536
  json : C.loads (dumps r.traceHeaders) = .ok r.traceHeaders
  frame : r.frame.Valid C dumps
  object : ∃ v, r.frame.header = some v ∧ v.isObject = true
  payload : (r.frame.encode C dumps).length ≤ MAX_BYTES

@[simp] theorem length_encode (r : Request) :
    (r.encode C dumps).length = 8 + r.endpointBytes.length + (dumps r.traceHeaders).length +
      (r.frame.encode C dumps).length := by
  simp only [encode, List.length_append, BigEndian.length_encode]
  omega

end Request

/-! ## One row -/

variable {C : Codecs} {dumps : Value → List UInt8}

/-- The field of a row behind `i` bytes. -/
theorem slice_field {xs ys zs : List UInt8} {i n : Nat} (hx : xs.length = i) (hy : ys.length = n) :
    slice (xs ++ (ys ++ zs)) i n = ys := by
  rw [Framing.slice_append_right (Nat.le_of_eq hx), hx, Nat.sub_self,
    Framing.slice_append_left hy]

theorem slice_whole {xs : List UInt8} {n : Nat} (h : xs.length = n) : slice xs 0 n = xs := by
  rw [slice, List.drop_zero, ← h, List.take_length]

/-- The last field of a row. -/
theorem slice_last {xs ys : List UInt8} {i n : Nat} (hx : xs.length = i) (hy : ys.length = n) :
    slice (xs ++ ys) i n = ys := by
  rw [Framing.slice_append_right (Nat.le_of_eq hx), hx, Nat.sub_self, slice_whole hy]

theorem readHeader_head (hempty : ∀ v, C.loads [] ≠ .ok v) {f : TwoPart} (hf : f.Valid C dumps) :
    readHeader C (f.head dumps).length (f.head dumps ++ f.body) = .ok (f.header.getD .null) := by
  unfold readHeader
  rw [List.take_left]
  cases hh : f.header with
  | none => simp [TwoPart.head, hh]
  | some v =>
    have hjson := hf.json v hh
    have hne : (f.head dumps).length ≠ 0 := by
      intro h0
      have : dumps v = [] := by
        simpa [TwoPart.head, hh] using List.eq_nil_of_length_eq_zero h0
      rw [this] at hjson
      exact hempty v hjson
    rw [if_neg hne]
    simpa [TwoPart.head, hh] using hjson

theorem readFrame_encode (hempty : ∀ v, C.loads [] ≠ .ok v) {f : TwoPart}
    (hf : f.Valid C dumps) (offset : Nat) :
    readFrame C offset (f.encode C dumps) =
      .ok (f.row C dumps offset, (f.encode C dumps).length) := by
  have hmax : MAX_BYTES < 256 ^ 8 := by decide
  have hsize := hf.size
  refine readFrame_eq_ok.2 ⟨(f.head dumps).length, f.body.length, f.checksum C dumps,
    f.head dumps ++ f.body, f.header.getD .null, ?_, ?_, ?_, ?_, f.length_encode C dumps,
    Nat.le_refl _, hsize, fun hne => ?_, readHeader_head hempty hf, ?_⟩
  · rw [TwoPart.encode, Framing.slice_append_left (BigEndian.length_encode _ _),
      BigEndian.decode_encode (by omega)]
  · rw [TwoPart.encode, slice_field (BigEndian.length_encode _ _) (BigEndian.length_encode _ _),
      BigEndian.decode_encode (by omega)]
  · rw [TwoPart.encode, Framing.slice_append_right (by simp), BigEndian.length_encode,
      slice_field (BigEndian.length_encode _ _) (BigEndian.length_encode _ _),
      BigEndian.decode_encode (f.checksum_lt C dumps)]
  · rw [TwoPart.encode, Framing.slice_append_right (by simp), BigEndian.length_encode,
      Framing.slice_append_right (by simp), BigEndian.length_encode,
      slice_last (BigEndian.length_encode _ _) List.length_append]
  · unfold TwoPart.checksum at hne ⊢
    split at hne
    · rename_i hc
      rw [if_pos hc]
    · exact absurd rfl hne
  · rw [TwoPart.row, List.drop_left, slice_whole rfl]

theorem decodeUtf8_endpointBytes (r : Request) : decodeUtf8 r.endpointBytes = .ok r.endpoint := by
  have hbytes : r.endpointBytes.toByteArray = r.endpoint.toByteArray := by
    apply ByteArray.ext
    rw [Request.endpointBytes, List.data_toByteArray, Array.toArray_toList]
  unfold decodeUtf8
  rw [hbytes, String.fromUTF8?, dif_pos r.endpoint.isValidUTF8]
  rfl

/-- Encoded frames are read back as their rows. -/
theorem twoParts_encode (hempty : ∀ v, C.loads [] ≠ .ok v) (frames : List TwoPart)
    (h : ∀ f ∈ frames, f.Valid C dumps) :
    twoParts C (frames.flatMap (·.encode C dumps)) =
      .ok (Framing.layout (·.encode C dumps) (TwoPart.row C dumps) 0 frames) :=
  Framing.rows_flatMap (lawful_readFrame C) fun f hf offset => readFrame_encode hempty (h f hf) offset

/-- The three length fields of an encoded request. -/
theorem Request.lengths {r : Request} (hendpoint : r.endpointBytes.length < 1024)
    (hheaders : (dumps r.traceHeaders).length < 65536)
    (hpayload : (r.frame.encode C dumps).length < 256 ^ 4) :
    BigEndian.decode (slice (r.encode C dumps) 0 2) = r.endpointBytes.length ∧
    BigEndian.decode (slice (r.encode C dumps) (2 + r.endpointBytes.length) 2) =
      (dumps r.traceHeaders).length ∧
    BigEndian.decode (slice (r.encode C dumps)
      (4 + r.endpointBytes.length + (dumps r.traceHeaders).length) 4) =
      (r.frame.encode C dumps).length := by
  refine ⟨?_, ?_, ?_⟩
  · rw [Request.encode, Framing.slice_append_left (BigEndian.length_encode _ _),
      BigEndian.decode_encode (by omega)]
  · rw [Request.encode, Framing.slice_append_right (by simp), BigEndian.length_encode,
      slice_field (by omega) (BigEndian.length_encode _ _), BigEndian.decode_encode (by omega)]
  · rw [Request.encode, Framing.slice_append_right (by simp; omega), BigEndian.length_encode,
      Framing.slice_append_right (by omega), Framing.slice_append_right (by simp; omega),
      BigEndian.length_encode, slice_field (by omega) (BigEndian.length_encode _ _),
      BigEndian.decode_encode hpayload]

theorem readRequest_encode (hempty : ∀ v, C.loads [] ≠ .ok v) {r : Request}
    (hr : r.Valid C dumps) (start : Nat) :
    readRequest C start (r.encode C dumps) =
      .ok (r.row C dumps start, (r.encode C dumps).length) := by
  have hpayload : twoParts C (r.frame.encode C dumps) = .ok [r.frame.row C dumps 0] := by
    have h := twoParts_encode hempty [r.frame] (by simpa using hr.frame)
    rwa [List.flatMap_singleton] at h
  have hmax := hr.payload
  have hbound : MAX_BYTES < 256 ^ 4 := by decide
  obtain ⟨v, hv, hobj⟩ := hr.object
  obtain ⟨hn, hm, hk⟩ := Request.lengths hr.endpoint_lt hr.headers_lt
    (Nat.lt_of_le_of_lt hmax hbound)
  refine readRequest_eq_ok.2 ⟨r.endpointBytes.length, (dumps r.traceHeaders).length,
    (r.frame.encode C dumps).length, r.endpoint, r.traceHeaders, r.frame.row C dumps 0, hn.symm,
    hm.symm, hk.symm, r.length_encode C dumps, Nat.le_refl _, hr.endpoint_pos, hr.endpoint_lt, hmax,
    ?_, ?_, ?_, ?_, ?_⟩
  · rw [Request.encode, slice_field (BigEndian.length_encode _ _) rfl]
    exact decodeUtf8_endpointBytes r
  · rw [Request.encode, Framing.slice_append_right (by simp; omega), BigEndian.length_encode,
      Framing.slice_append_right (by omega), slice_field (by simp; omega) rfl]
    exact hr.json
  · rw [Request.encode, Framing.slice_append_right (by simp; omega), BigEndian.length_encode,
      Framing.slice_append_right (by omega), Framing.slice_append_right (by simp; omega),
      BigEndian.length_encode, Framing.slice_append_right (by omega),
      slice_last (by simp; omega) rfl]
    exact hpayload
  · simpa [TwoPart.row, hv] using hobj
  · rw [slice_whole rfl]
    rfl

/-- Encoded requests are read back as their rows. -/
theorem outerRequests_encode (hempty : ∀ v, C.loads [] ≠ .ok v) (requests : List Request)
    (h : ∀ r ∈ requests, r.Valid C dumps) :
    outerRequests C (requests.flatMap (·.encode C dumps)) =
      .ok (Framing.layout (·.encode C dumps) (Request.row C dumps) 0 requests) :=
  Framing.rows_flatMap (lawful_readRequest C) fun r hr start => readRequest_encode hempty (h r hr) start

/-! ## Streams -/

theorem readFrame_offset {offset n : Nat} {data : List UInt8} {frame : Frame}
    (h : readFrame C offset data = .ok (frame, n)) : frame.offset = offset ∧ frame.bytes = n := by
  obtain ⟨_, _, _, _, _, -, -, -, -, -, -, -, -, -, rfl⟩ := readFrame_eq_ok.1 h
  exact ⟨rfl, rfl⟩

theorem readRequest_start {start n : Nat} {data : List UInt8} {row : RequestRow}
    (h : readRequest C start data = .ok (row, n)) : row.outerOffset = start := by
  obtain ⟨_, _, _, _, _, _, -, -, -, -, -, -, -, -, -, -, -, -, rfl⟩ := readRequest_eq_ok.1 h
  rfl

/-- Every byte of an accepted stream of frames lies in the extent of exactly one row. -/
theorem twoParts_extents {data : List UInt8} {rows : List Frame} (h : twoParts C data = .ok rows) :
    ∀ i < data.length, ∃! j : Nat, ∃ frame, rows[j]? = some frame ∧
      frame.offset ≤ i ∧ i < frame.offset + frame.bytes := by
  obtain ⟨pieces, -, hpieces, hunique⟩ :=
    Framing.rows_accounted (lawful_readFrame C) (fun h => (readFrame_offset h).1) h
  intro i hi
  obtain ⟨j, ⟨frame, piece, hframe, hpiece, hle, hlt⟩, huniq⟩ := hunique i hi
  have hbytes : ∀ {j : Nat} {frame : Frame} {piece : List UInt8}, rows[j]? = some frame → pieces[j]? = some piece →
      frame.bytes = piece.length := by
    intro j frame piece hframe hpiece
    obtain ⟨piece', o, hpiece', hread⟩ := hpieces.getElem? hframe
    rw [hpiece, Option.some.injEq] at hpiece'
    rw [(readFrame_offset hread).2, hpiece']
  refine ⟨j, ⟨frame, hframe, hle, by rw [hbytes hframe hpiece]; exact hlt⟩, ?_⟩
  rintro j' ⟨frame', hframe', hle', hlt'⟩
  obtain ⟨piece', -, hpiece', -⟩ := hpieces.getElem? hframe'
  exact huniq j' ⟨frame', piece', hframe', hpiece', hle',
    by rw [← hbytes hframe' hpiece']; exact hlt'⟩

/-- **Framing round trip.**  Valid frames and valid requests are read back from the
concatenation of their encodings.  Of any stream that is accepted, every byte belongs to
exactly one row, and a cut that is not at the start of a row is rejected. -/
theorem framing_round_trip (C : Codecs) (dumps : Value → List UInt8)
    (hempty : ∀ v, C.loads [] ≠ .ok v) :
    (∀ frames : List TwoPart, (∀ f ∈ frames, f.Valid C dumps) →
      twoParts C (frames.flatMap (·.encode C dumps)) =
        .ok (Framing.layout (·.encode C dumps) (TwoPart.row C dumps) 0 frames)) ∧
    (∀ requests : List Request, (∀ r ∈ requests, r.Valid C dumps) →
      outerRequests C (requests.flatMap (·.encode C dumps)) =
        .ok (Framing.layout (·.encode C dumps) (Request.row C dumps) 0 requests)) ∧
    (∀ data rows, twoParts C data = .ok rows →
      Framing.Accounted (readFrame C) (·.offset) data rows ∧
      (∀ i < data.length, ∃! j : Nat, ∃ frame, rows[j]? = some frame ∧
        frame.offset ≤ i ∧ i < frame.offset + frame.bytes) ∧
      ∀ k < data.length, (∀ row ∈ rows, row.offset ≠ k) →
        ∃ e, twoParts C (data.take k) = .error e) ∧
    (∀ data rows, outerRequests C data = .ok rows →
      Framing.Accounted (readRequest C) (·.outerOffset) data rows ∧
      ∀ k < data.length, (∀ row ∈ rows, row.outerOffset ≠ k) →
        ∃ e, outerRequests C (data.take k) = .error e) := by
  refine ⟨fun frames h => twoParts_encode hempty frames h,
    fun requests h => outerRequests_encode hempty requests h,
    fun data rows h => ?_, fun data rows h => ?_⟩
  · exact ⟨Framing.rows_accounted (lawful_readFrame C) (fun h => (readFrame_offset h).1) h,
      twoParts_extents h, fun k hk hcut =>
        Framing.rows_take (lawful_readFrame C) (fun h => (readFrame_offset h).1) h hk hcut⟩
  · exact ⟨Framing.rows_accounted (lawful_readRequest C) readRequest_start h,
      fun k hk hcut => Framing.rows_take (lawful_readRequest C) readRequest_start h hk hcut⟩

/-- The JSON codec on the empty object. -/
def emptyObjectCodecs : Codecs where
  loads bytes := if bytes = [123, 125] then .ok (.dict []) else .error "Expecting value"
  xxh3 _ := 0
  sha _ := ""

/-- A checksummed frame with a header and one byte of body. -/
def smallFrame : TwoPart := ⟨some (.dict []), [7], true⟩

theorem smallFrame_valid : smallFrame.Valid emptyObjectCodecs fun _ => [123, 125] :=
  ⟨by decide, fun v hv => by cases hv; rfl⟩

theorem framing_round_trip_smallFrame :
    twoParts emptyObjectCodecs (smallFrame.encode emptyObjectCodecs fun _ => [123, 125]) =
      .ok [⟨.dict [], [7], 0, 27, ""⟩] ∧
    outerRequests emptyObjectCodecs
        (Request.encode emptyObjectCodecs (fun _ => [123, 125]) ⟨"ping", .dict [], smallFrame⟩) =
      .ok [⟨"ping", .dict [], .dict [], [7], 0, 27, "", 0, ""⟩] := by
  obtain ⟨hframes, hrequests, -, -⟩ := framing_round_trip emptyObjectCodecs (fun _ => [123, 125])
    (by simp [emptyObjectCodecs])
  constructor
  · have h := hframes [smallFrame] (by simpa using smallFrame_valid)
    rwa [List.flatMap_singleton] at h
  · have h := hrequests [⟨"ping", .dict [], smallFrame⟩] (by
      intro r hr
      rw [List.mem_singleton] at hr
      subst hr
      exact ⟨by decide, by decide, by decide, rfl, smallFrame_valid, ⟨_, rfl, rfl⟩, by decide⟩)
    rwa [List.flatMap_singleton] at h

/-- The encoded frame of an accepted request is within the payload limit. -/
theorem readRequest_payload_le {r : Request} {start n : Nat} {row : RequestRow}
    (hendpoint : r.endpointBytes.length < 1024) (hheaders : (dumps r.traceHeaders).length < 65536)
    (hpayload : (r.frame.encode C dumps).length < 256 ^ 4)
    (h : readRequest C start (r.encode C dumps) = .ok (row, n)) :
    (r.frame.encode C dumps).length ≤ MAX_BYTES := by
  obtain ⟨hn, hm, hk⟩ := Request.lengths hendpoint hheaders hpayload
  obtain ⟨_, _, _, _, _, _, rfl, rfl, rfl, -, -, -, -, hle, -⟩ := readRequest_eq_ok.1 h
  rwa [hn, hm, hk] at hle

/-- A request whose encoded frame exceeds the payload limit is rejected. -/
theorem outerRequests_oversized {r : Request} (hendpoint : r.endpointBytes.length < 1024)
    (hheaders : (dumps r.traceHeaders).length < 65536)
    (hpayload : (r.frame.encode C dumps).length < 256 ^ 4)
    (hmax : MAX_BYTES < (r.frame.encode C dumps).length) (rows : List RequestRow) :
    outerRequests C (r.encode C dumps) ≠ .ok rows := by
  intro h
  have hne : r.encode C dumps ≠ [] := by
    rw [← List.length_pos_iff, Request.length_encode]
    omega
  obtain ⟨row, n, hread⟩ := Framing.rows_front hne h
  have hle := readRequest_payload_le hendpoint hheaders hpayload hread
  omega

/-- A request whose frame is as large as frames may be. -/
def largestRequest : Request :=
  ⟨"worker/generate", .dict [], ⟨some (.dict []), List.replicate (MAX_BYTES - 2) 0, false⟩⟩

/-- **The frame header counts against the payload limit of a request.**  A frame of the largest
size round-trips by itself, and the request that carries it is rejected. -/
theorem largestRequest_rejected :
    largestRequest.frame.Valid emptyObjectCodecs (fun _ => [123, 125]) ∧
    (0 < largestRequest.endpointBytes.length ∧ largestRequest.endpointBytes.length < 1024) ∧
    emptyObjectCodecs.loads [123, 125] = .ok largestRequest.traceHeaders ∧
    ∀ rows, outerRequests emptyObjectCodecs
      (largestRequest.encode emptyObjectCodecs fun _ => [123, 125]) ≠ .ok rows := by
  have hmax : MAX_BYTES = 134217728 := by decide
  have hbody : largestRequest.frame.body.length = 134217726 := by
    rw [largestRequest, List.length_replicate, hmax]
  have hhead : (largestRequest.frame.head fun _ => [123, 125]).length = 2 := rfl
  have hendpoint : largestRequest.endpointBytes.length = 15 := by decide
  have hlen : (largestRequest.frame.encode emptyObjectCodecs fun _ => [123, 125]).length =
      134217752 := by
    rw [TwoPart.length_encode, hbody, hhead]
  have hheaders : ((fun _ => [123, 125] : Value → List UInt8)
      largestRequest.traceHeaders).length < 65536 := by decide
  refine ⟨⟨by omega, fun v hv => by cases hv; rfl⟩, by omega, rfl, fun rows => ?_⟩
  exact outerRequests_oversized (by omega) hheaders (by omega) (by omega) rows
end ReedCode.WireCapture
