import ReedCode.WireCapture.Frames

/-!
# Decoding a capture

`decode` of `decode.py` on reassembled streams: every stream is classified, requests are read
and keyed by their id, and every response stream is matched to its request by subject and
checked frame by frame.

* Dictionary and set keys of the source are values of Python; `keyOf` is the equality
  class of a hashable one (`True`, `1` and `1.0` are one key; a NaN equals nothing).
* A `KeyError`, `TypeError` or `AttributeError` is an error like a `ValueError`; its text is
  only named.
* `msgpack.unpackb` and `json.loads` of a string join the library calls (`DecodeCodecs`).
-/

set_option autoImplicit false

namespace ReedCode.WireCapture

structure DecodeCodecs extends Codecs where
  loadsText : String → Except String Value
  unpackb : List UInt8 → Except String Value

/-! ## Values of Python -/

inductive Key where
  | null
  | num (q : Rat)
  | str (s : String)
  | bytes (b : List UInt8)
  | ext (tag : String)
  deriving DecidableEq

/-- The key of a hashable value. -/
def keyOf : Value → Option Key
  | .null => some .null
  | .bool b => some (.num (if b then 1 else 0))
  | .int n => some (.num n)
  | .float q => some (.num q)
  | .str s => some (.str s)
  | .bytes b => some (.bytes b)
  | .ext tag => if tag = "nan" then none else some (.ext tag)
  | .list _ | .dict _ => none

/-- `set` and `dict` membership hashes the value. -/
def hashed (v : Value) : Except String Key :=
  match keyOf v with
  | some k => .ok k
  | none => .error "TypeError: unhashable type"

/-- `v[key]`. -/
def item (v : Value) (key : String) : Except String Value :=
  if v.isObject then
    match v.get? key with
    | some x => .ok x
    | none => .error ("KeyError: " ++ key)
  else .error "TypeError: not subscriptable by a string"

/-- `v.get(key)`. -/
def dictGet (v : Value) (key : String) : Except String Value :=
  if v.isObject then .ok ((v.get? key).getD .null) else .error "AttributeError: get"

/-! ## Payloads -/

inductive PayloadCodec where
  | json
  | msgpack
  deriving DecidableEq

def payloadCodec (codec : Value) : Except String PayloadCodec :=
  if codec = .str "json" then .ok .json
  else if codec = .str "msgpack" then .ok .msgpack
  else .error "Unsupported request payload codec: "

def unpack (C : DecodeCodecs) (data : List UInt8) : PayloadCodec → Except String Value
  | .json => C.loads data
  | .msgpack => C.unpackb data

def tokenId : Value → Except String Nat
  | .int n =>
    if 0 ≤ n ∧ n ≤ 0xffffffff then .ok n.toNat else .error "Expected an exact token-ID array"
  | _ => .error "Expected an exact token-ID array"

def tokenIds : Value → Except String (List Nat)
  | .list items => items.mapM tokenId
  | _ => .error "Expected an exact token-ID array"

/-! ## Requests -/

inductive Kind where
  | control
  | model
  deriving DecidableEq

/-- `endpoint.rsplit("/", 1)[-1]`. -/
def endpointName (endpoint : String) : String :=
  String.ofList ((endpoint.toList.reverse.takeWhile (· ≠ '/')).reverse)

def isLowerHex (c : Char) : Bool := ('0' ≤ c && c ≤ '9') || ('a' ≤ c && c ≤ 'f')

/-- `re.fullmatch(r"worker_kv_query_source_[0-9a-f]+", name)`. -/
def isRecovery (name : String) : Bool :=
  let stem := "worker_kv_query_source_".toList
  let rest := name.toList.drop stem.length
  name.toList.take stem.length == stem && !rest.isEmpty && rest.all isLowerHex

def endpointKind (endpoint : String) : Kind :=
  let name := endpointName endpoint
  if name = "clear_kv_blocks" || isRecovery name then .control else .model

/-- A stream without its data. -/
structure Capture where
  direction : FourTuple
  duplicateBytes : Nat
  firstTimestampNs : Nat
  finSeen : Bool
  resetSeen : Bool
  deriving DecidableEq

def Stream.meta (s : Stream) : Capture :=
  ⟨s.direction, s.duplicateBytes, s.firstTimestampNs, s.finSeen, s.resetSeen⟩

structure RequestRecord where
  requestId : Value
  responseSubject : Value
  kind : Kind
  payloadCodec : PayloadCodec
  endpoint : String
  control : Value
  traceHeaders : Value
  request : Value
  inputTokenIds : List Nat
  wirePayloadSha256 : String
  outerSha256 : String
  capture : Capture
  responses : List (Value × String)
  outputTokenIds : Option (List Nat)
  responseCapture : Option Capture
  complete : Option Bool
  responseCaptureStatus : Option String
  deriving DecidableEq

/-- The id of a request frame. -/
def requestKey (row : RequestRow) : Except String (Value × Key) := do
  let requestType ← dictGet row.header "request_type"
  Except.failIf (requestType ≠ .str "single_in")
    "Only unary Dynamo requests are validated by this parser"
  let requestId ← item row.header "id"
  let key ← hashed requestId
  return (requestId, key)

/-- The rest of a request frame, once its id is known to be new. -/
def requestRecord (C : DecodeCodecs) (capture : Capture) (row : RequestRow)
    (id : Value × Key) : Except String RequestRecord := do
  let transportId ← dictGet row.traceHeaders "request-id"
  Except.failIf (keyOf transportId ≠ some id.2)
    "Transport header and request control IDs disagree"
  let codec ← payloadCodec ((row.header.get? "payload_codec").getD (.str "json"))
  let body ← unpack C row.body codec
  let ids ← match endpointKind row.endpoint with
    | .model => (dictGet body "token_ids").bind tokenIds
    | .control => .ok []
  let connection ← item row.header "connection_info"
  let transport ← item connection "transport"
  Except.failIf (transport ≠ .str "tcp_server") "Expected a TCP response stream"
  let infoText ← item connection "info"
  let info ← match infoText with
    | .str s => C.loadsText s
    | .bytes b => C.loads b
    | _ => .error "TypeError: the JSON object must be str, bytes or bytearray"
  let context ← item info "context"
  Except.failIf (keyOf context ≠ some id.2)
    "Response subject is not bound to the request context"
  let streamType ← item info "stream_type"
  Except.failIf (streamType ≠ .str "response")
    "Response subject is not bound to the request context"
  let subject ← item info "subject"
  return {
    requestId := id.1
    responseSubject := subject
    kind := endpointKind row.endpoint
    payloadCodec := codec
    endpoint := row.endpoint
    control := row.header
    traceHeaders := row.traceHeaders
    request := body
    inputTokenIds := ids
    wirePayloadSha256 := C.sha row.body
    outerSha256 := row.outerSha256
    capture
    responses := []
    outputTokenIds := none
    responseCapture := none
    complete := none
    responseCaptureStatus := none }

/-! ## Classification -/

inductive Classified where
  | requests (rows : List RequestRow)
  | acknowledgements (count : Nat)
  | response (subject : String) (frames : List Frame)
  | controls (headers : List Value)
  deriving DecidableEq

/-- The subject of a response handshake. -/
def handshakeSubject (header : Value) : Option String :=
  if header.isObject && header.get? "stream_type" = some (.str "response") then
    (header.get? "subject").bind Value.asStr?
  else none

def isControlFrame (frame : Frame) : Bool :=
  (frame.header = .str "sentinel" || frame.header = .str "stop" || frame.header = .str "kill") &&
    frame.body.isEmpty

/-- What a stream carries. -/
def classify (C : DecodeCodecs) (data : List UInt8) : Except String Classified :=
  if data.length ≥ 2 ∧ data.take 2 ≠ [0, 0] then do
    let rows ← outerRequests C.toCodecs data
    return .requests rows
  else if data = List.replicate (4 * (data.length / 4)) 0 then
    .ok (.acknowledgements (data.length / 4))
  else do
    let frames ← twoParts C.toCodecs data
    match frames.head?.bind fun first => handshakeSubject first.header with
    | some subject =>
      Except.failIf (frames.head?.any fun first => !first.body.isEmpty)
        "Response handshake unexpectedly has a body"
      return .response subject frames.tail
    | none =>
      Except.failIf (!frames.all isControlFrame)
        "Unrecognized TCP stream; no traffic was silently discarded"
      return .controls (frames.map (·.header))

/-- What the first loop has collected. -/
structure Collected where
  requests : FinMap Key RequestRecord
  responseStreams : List (String × List Frame × Capture)
  acknowledgements : Nat
  controls : List (Capture × List Value)

def Collected.empty : Collected := ⟨.empty, [], 0, []⟩

/-- One request frame, captured in a stream. -/
def addRequest (C : DecodeCodecs) (requests : FinMap Key RequestRecord)
    (captured : Capture × RequestRow) : Except String (FinMap Key RequestRecord) := do
  let id ← requestKey captured.2
  Except.failIf (requests.contains id.2) "Duplicate Dynamo request ID"
  let record ← requestRecord C captured.1 captured.2 id
  return requests.insert id.2 record

/-- One turn of the first loop. -/
def Collected.add (C : DecodeCodecs) (acc : Collected) (stream : Stream) :
    Except String Collected := do
  let classified ← classify C stream.data
  match classified with
  | .requests rows =>
    let requests ← (rows.map fun row => (stream.meta, row)).foldlM (addRequest C) acc.requests
    return { acc with requests }
  | .acknowledgements count => return { acc with acknowledgements := acc.acknowledgements + count }
  | .response subject frames =>
    return { acc with responseStreams := acc.responseStreams ++ [(subject, frames, stream.meta)] }
  | .controls headers => return { acc with controls := acc.controls ++ [(stream.meta, headers)] }

/-! ## Responses -/

/-- The flags and the output of a response while its frames are read. -/
structure Progress where
  complete : Bool
  prologue : Bool
  sentinel : Bool
  output : List Nat
  responses : List (Value × String)

def Progress.start : Progress := ⟨false, false, false, [], []⟩

/-- `"token_ids" in payload` and the tokens there; a string or a list that passes the membership
test cannot be indexed. -/
def payloadTokens : Value → Except String (List Nat)
  | .null => .ok []
  | .dict fields =>
    match (Value.dict fields).get? "token_ids" with
    | some ids => tokenIds ids
    | none => .ok []
  | .str s =>
    if s.toList.tails.any ("token_ids".toList.isPrefixOf ·) then .error "TypeError: string indices"
    else .ok []
  | .list items =>
    if items.contains (.str "token_ids") then .error "TypeError: list indices" else .ok []
  | .ext tag => if tag = "ExtType" then .ok [] else .error "TypeError: argument is not iterable"
  | _ => .error "TypeError: argument is not iterable"

/-- The tokens of the data of a wrapper. -/
def wrapperTokens (kind : Kind) (annotated : Value) : Except String (List Nat) :=
  match kind with
  | .control => .ok []
  | .model =>
    if annotated.isNull then .ok []
    else
      match annotated.isObject, annotated.get? "data" with
      | true, some payload => payloadTokens payload
      | _, _ => .error "Expected Dynamo Annotated response data"

/-- The completion marker and the tokens of a payload frame. -/
def readPayload (C : DecodeCodecs) (kind : Kind) (codec : PayloadCodec) (body : List UInt8) :
    Except String (Value × Bool × List Nat) := do
  let wrapper ← unpack C body codec
  let marker ← dictGet wrapper "complete_final"
  let final ← match marker with
    | .bool b => .ok b
    | _ => .error "Response completion marker is unavailable"
  let annotated ← dictGet wrapper "data"
  let tokens ← wrapperTokens kind annotated
  return (wrapper, final, tokens)

/-- One turn of the loop over the frames of a response. -/
def Progress.step (C : DecodeCodecs) (kind : Kind) (codec : PayloadCodec) (state : Progress)
    (frame : Frame) : Except String Progress :=
  match frame.header.get? "error", frame.body.isEmpty with
  | some error, true =>
    if !error.isNull || state.prologue then .error "Failed or duplicate response prologue"
    else .ok { state with prologue := true }
  | _, bodyless =>
    if frame.header = .str "sentinel" ∧ bodyless = true then .ok { state with sentinel := true }
    else if frame.header = .null ∧ bodyless = false then
      if !state.prologue || state.complete || state.sentinel then
        .error "Response payload lies outside its open stream"
      else do
        let payload ← readPayload C kind codec frame.body
        return { state with
          complete := payload.2.1
          output := state.output ++ payload.2.2
          responses := state.responses ++ [(payload.1, frame.sha256)] }
    else .error "Unrecognized or interrupted response frame"

/-- The frames of a response behind its handshake. -/
def readResponse (C : DecodeCodecs) (kind : Kind) (codec : PayloadCodec) (frames : List Frame) :
    Except String Progress := do
  let state ← frames.foldlM (Progress.step C kind codec) .start
  Except.failIf (!state.prologue || !state.complete || !state.sentinel)
    "Response stream is incomplete"
  return state

/-- `by_subject`, from the subject of a request to its id. -/
def bySubject (requests : FinMap Key RequestRecord) : Except String (List (Key × Key)) :=
  requests.entries.mapM fun r => (hashed r.2.responseSubject).map fun subject => (subject, r.1)

/-- `row.update(..)` for a response that was read to its end. -/
def RequestRecord.answer (row : RequestRecord) (state : Progress) (capture : Capture) :
    RequestRecord :=
  { row with
    responses := state.responses
    outputTokenIds := some state.output
    responseCapture := some capture
    complete := some true }

/-- The second loop: match a response stream to its request, on the requests and the subjects
seen so far. -/
def matchResponse (C : DecodeCodecs) (subjects : List (Key × Key))
    (acc : FinMap Key RequestRecord × List String) (response : String × List Frame × Capture) :
    Except String (FinMap Key RequestRecord × List String) :=
  match subjects.lookup (.str response.1) with
  | none => .error "Unmatched or duplicate response stream"
  | some id =>
    if response.1 ∈ acc.2 then .error "Unmatched or duplicate response stream"
    else
      match acc.1.get? id with
      | none => .error "KeyError"
      | some row => do
        let state ← readResponse C row.kind row.payloadCodec response.2.1
        return (acc.1.insert id (row.answer state response.2.2), acc.2 ++ [response.1])

structure Report where
  requests : List RequestRecord
  dataStreams : Nat
  transportAcknowledgements : Nat
  controls : List (Capture × List Value)

/-- A request without a captured response; only a control request may be one. -/
def RequestRecord.unanswered (seen : List String) (row : RequestRecord) : RequestRecord :=
  if row.responseSubject.asStr?.any (seen.contains ·) then row
  else { row with
    complete := some false
    outputTokenIds := none
    responseCaptureStatus := some "control_response_outside_capture" }

def decode (C : DecodeCodecs) (streams : List Stream) : Except String Report := do
  let collected ← streams.foldlM (Collected.add C) .empty
  let subjects ← bySubject collected.requests
  Except.failIf (!decide (subjects.map (·.1)).Nodup) "Ambiguous response subject"
  let answered ← collected.responseStreams.foldlM (matchResponse C subjects) (collected.requests, [])
  let required := (answered.1.entries.map (·.2)).filter fun row => decide (row.kind = .model)
  Except.failIf (required.isEmpty ||
      required.any fun row => !(row.responseSubject.asStr?.any (answered.2.contains ·)))
    "Missing backend requests or matched response streams"
  return {
    requests := ((answered.1.entries.map (·.2)).map (·.unanswered answered.2)).insertionSort
      fun a b => a.capture.firstTimestampNs ≤ b.capture.firstTimestampNs
    dataStreams := streams.length
    transportAcknowledgements := collected.acknowledgements
    controls := collected.controls }

end ReedCode.WireCapture
