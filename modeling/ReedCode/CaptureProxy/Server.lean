import ReedCode.CaptureProxy.Body
import ReedCode.Lib.Digits
import ReedCode.Lib.Processes
import ReedCode.PyText

/-!
# The capture proxy

`CaptureServer` and `CaptureHandler` of `readiness/capture_proxy.py`: handlers of one request
each, in threads of their own, around the counters of the server, its folders, the server
upstream and the clients.

* A handler is cut at its locks, its files and its sockets; what a socket brings or raises, and
  what the clock reads, comes with the action.
* `disk`, `upstream` and `client` are what was written, sent and shown by all handlers, each entry
  with its handler; a handler keeps its own part as history variables.
* Header names are ASCII.  Writes to files do not fail, and an error reply that fails shows
  nothing.  The times of the metadata are left out.
-/

set_option autoImplicit false

namespace ReedCode.CaptureProxy

abbrev Bytes := List UInt8
abbrev Headers := List (String × String)

/-! ## Headers -/

def HOP_HEADERS : List String :=
  ["connection", "keep-alive", "proxy-authenticate", "proxy-authorization", "te", "trailer",
    "transfer-encoding", "upgrade"]

def SAFE_HEADERS : List String :=
  ["accept", "content-type", "content-encoding", "content-length", "user-agent",
    "anthropic-version", "anthropic-beta", "openai-beta", "x-request-id", "request-id",
    "session_id", "originator"]

def safeHeaders (headers : Headers) : Headers :=
  headers.filter fun h =>
    SAFE_HEADERS.contains h.1.toLower || "x-claude-code-".toList.isPrefixOf h.1.toLower.toList

/-- `headers.get_all(name, [])`; the name in lower case. -/
def getAll (headers : Headers) (name : String) : List String :=
  (headers.filter fun h => h.1.toLower = name).map (·.2)

/-- The headers that a `Connection` header names. -/
def connectionHeaders (headers : Headers) : List (List Char) :=
  (getAll headers "connection").flatMap fun value =>
    (value.toList.splitOn ',').map fun name => (PyText.strip name).map Char.toLower

/-! ## Requests -/

structure ClientRequest where
  method : String
  path : String
  headers : Headers
  /-- What the client sends behind the headers. -/
  stream : Bytes

/-- How its body is framed. -/
def ClientRequest.framing (r : ClientRequest) : Request :=
  ⟨getAll r.headers "content-length", getAll r.headers "transfer-encoding", r.stream⟩

/-- `forbidden_auth`. -/
def ClientRequest.forbiddenAuth (r : ClientRequest) : Bool :=
  let values := getAll r.headers "authorization"
  1 < values.length || values.any (· ≠ "Bearer local-dynamo") ||
    ["x-api-key", "cookie", "proxy-authorization"].any fun name => getAll r.headers name ≠ []

/-- The limits of a session, as `CaptureServer` takes them. -/
structure Settings where
  upstreamPort : Nat
  maxCalls : Nat
  seconds : Rat
  /-- Empty when there is none. -/
  traceIdPrefix : String
  sha256 : Bytes → String
  /-- Whether `urlsplit` takes a network location that has brackets. -/
  bracketed : List Char → Bool
  maxCalls_pos : 1 ≤ maxCalls
  seconds_pos : 0 < seconds

/-- The `netloc` and the `path` of `urlsplit(url)`; none when it raises. -/
def urlSplit (bracketed : List Char → Bool) (url : List Char) : Option (List Char × List Char) :=
  let url := (url.dropWhile fun c => c.toNat ≤ 32).filter fun c => !(['\t', '\r', '\n'].contains c)
  let front := url.takeWhile (· ≠ ':')
  let isScheme := url.contains ':' && front.head?.any Char.isAlpha &&
    front.all fun c => c.isAlphanum || ['+', '-', '.'].contains c
  let url := if isScheme then url.drop (front.length + 1) else url
  let (netloc, url) := match url with
    | '/' :: '/' :: rest => rest.span fun c => !(['/', '?', '#'].contains c)
    | _ => ([], url)
  if netloc.contains '[' != netloc.contains ']' then none
  else if netloc.contains '[' && !bracketed netloc then none
  else some (netloc, url.takeWhile fun c => c ≠ '#' && c ≠ '?')

/-- `inference_request`. -/
def inferenceRequest (C : Settings) (method path : String) : Option Bool := do
  let path ← (urlSplit C.bracketed path.toList).map (·.2)
  let route := (path.reverse.dropWhile (· = '/')).reverse
  return method = "POST" && (route = "/v1/messages".toList ||
    "/v1/responses".toList.isPrefixOf route)

/-! ## The server -/

/-- What `admit` finds: the answer to a handler. -/
structure Admission where
  handler : Nat
  inference : Bool
  now : Rat
  sequence : Nat
  calls : Nat
  deadline : Rat
  allowed : Bool
  deriving DecidableEq

/-- The fields of the metadata that a handler starts with. -/
structure Heading where
  sequence : Nat
  method : String
  path : String
  inference : Bool
  admittedInferenceCount : Nat
  requestHeaders : Headers
  originalXRequestIds : List String
  observerXRequestId : Option String
  injectedRequestHeaders : Headers
  authorizationPresent : Bool
  authorizationIsStudyDummy : Bool
  unexpectedCredentials : Bool
  deriving DecidableEq

/-- The metadata of a request. -/
structure Metadata where
  heading : Heading
  complete : Bool
  chunks : List Nat
  error : Option String
  requestSha256 : Option String
  requestBytes : Option Nat
  responseStatus : Option Nat
  responseHeaders : Option Headers
  responseSha256 : Option String
  responseBytes : Option Nat
  deriving DecidableEq

/-- What is written into a folder: `responseBody` is one write to `response.body`. -/
inductive Content where
  | mkdir
  | requestBody (body : Bytes)
  | responseFile
  | responseBody (chunk : Bytes)
  | metadata (metadata : Metadata)
  deriving DecidableEq

structure Write where
  folder : List Char
  content : Content
  deriving DecidableEq

/-- A request to the server upstream; `whole` unless sending it failed on the way. -/
structure Forwarded where
  inference : Bool
  method : String
  path : String
  headers : Headers
  body : Bytes
  whole : Bool
  deriving DecidableEq

/-- What a client is shown. -/
inductive Shown where
  | reply (status : Nat) (message : String)
  | head (status : Nat) (reason : String) (headers : Headers)
  | chunk (bytes : Bytes)
  deriving DecidableEq

structure Server where
  sequence : Nat
  calls : Nat
  firstInference : Option Rat
  active : List Nat
  /-- What `cancel_active` still has to stop. -/
  stopping : List Nat
  /-- The handlers that are `cancelled`. -/
  cancelled : List Nat
  accepted : Nat
  admissions : List Admission
  disk : List (Nat × Write)
  upstream : List (Nat × Forwarded)
  client : List (Nat × Shown)

def Server.new : Server := ⟨0, 0, none, [], [], [], 0, [], [], [], []⟩

/-- `admit`. -/
def Server.admission (C : Settings) (s : Server) (handler : Nat) (inference : Bool) (now : Rat) :
    Server × Admission :=
  let sequence := s.sequence + 1
  let first := if inference && s.firstInference.isNone then some now else s.firstInference
  -- a first inference at zero is taken for none
  let deadline := ((first.filter (· ≠ 0)).getD now) + C.seconds
  let allowed := now < deadline && (!inference || s.calls < C.maxCalls)
  let calls := if allowed && inference then s.calls + 1 else s.calls
  let a : Admission := ⟨handler, inference, now, sequence, calls, deadline, allowed⟩
  ({ s with sequence, calls, firstInference := first, admissions := s.admissions ++ [a] }, a)

/-! ## Handlers -/

/-- A handler that has its folder: `body` once it is read, `pieces` once `response.body` is open;
they are what `response_hash` has seen. -/
structure Capture where
  admission : Admission
  metadata : Metadata
  body : Option Bytes
  pieces : Option (List Bytes)

/-- Where a handler stands; `failing` before it answers 502, `ending` in its `finally`. -/
inductive Phase where
  | accepted
  | active (inference : Bool)
  | numbered (a : Admission)
  | rejecting (c : Capture) (status : Nat) (message : String)
  | reading (c : Capture)
  | sending (c : Capture) (body : Bytes)
  | awaiting (c : Capture)
  | relaying (c : Capture)
  | failing (c : Capture)
  | ending (c : Capture)
  | done (c : Capture)
  | crashed (a : Option Admission)

structure Handler where
  id : Nat
  request : ClientRequest
  phase : Phase
  written : List Write
  sent : List Forwarded
  shown : List Shown

/-- How sending a request ends. -/
inductive Sending where
  | whole
  | part (error : String)
  | nothing (error : String)

/-- What the locks, the files and the sockets bring. -/
inductive Act where
  | register
  | number (now : Rat)
  | mkdir (uuid : String)
  | rejected (failure : Option String)
  | read (failure : Option String)
  | forwarded (sending : Sending)
  | responded (status : Nat) (reason : String) (headers : Headers) (failure : Option String)
  /-- A chunk, and how much of it the client got when writing to it failed. -/
  | chunk (bytes : Bytes) (now : Rat) (cut : Option (Nat × String))
  | late (now : Rat)
  /-- The response is over; what its length still misses. -/
  | ended (length : Option Nat)
  | failed (error : String)
  | apologised (sent : Bool)
  | close

def folderName (sequence : Nat) : List Char := Digits.zeroPad 4 sequence

def Capture.folder (c : Capture) : List Char := folderName c.admission.sequence

/-- `meta["error"]` is set. -/
def Capture.fail (c : Capture) (error : String) : Capture :=
  { c with metadata := { c.metadata with error := some error } }

/-- The metadata of a request that has its number. -/
def Heading.of (C : Settings) (a : Admission) (r : ClientRequest) (uuid : String) : Heading :=
  let original := getAll r.headers "x-request-id"
  let observer := if C.traceIdPrefix ≠ "" ∧ original = [] then some (C.traceIdPrefix ++ "-" ++ uuid)
    else none
  { sequence := a.sequence
    method := r.method
    path := r.path
    inference := a.inference
    admittedInferenceCount := a.calls
    requestHeaders := safeHeaders r.headers
    originalXRequestIds := original
    observerXRequestId := observer
    injectedRequestHeaders := (observer.map fun id => ("X-Request-ID", id)).toList
    authorizationPresent := getAll r.headers "authorization" ≠ []
    authorizationIsStudyDummy := getAll r.headers "authorization" = ["Bearer local-dynamo"]
    unexpectedCredentials := r.forbiddenAuth }

def Capture.start (C : Settings) (a : Admission) (r : ClientRequest) (uuid : String) : Capture :=
  ⟨a, ⟨.of C a r uuid, false, [], none, none, none, none, none, none, none⟩, none, none⟩

/-- The `Host` of `putrequest`: a path may name one. -/
def hostOf (C : Settings) (path : String) : String :=
  let netloc := if "http".toList.isPrefixOf path.toList then
      ((urlSplit C.bracketed path.toList).map (·.1)).getD []
    else []
  if netloc ≠ [] then String.ofList netloc
  else if C.upstreamPort = 80 then "127.0.0.1" else s!"127.0.0.1:{C.upstreamPort}"

/-- The headers that go upstream. -/
def forwardedHeaders (C : Settings) (r : ClientRequest) (heading : Heading) (body : Bytes) :
    Headers :=
  ("Host", hostOf C r.path) :: (r.headers.filter fun h =>
      !(HOP_HEADERS ++ ["host", "content-length"]).contains h.1.toLower &&
        !(connectionHeaders r.headers).contains h.1.toLower.toList) ++
    ("Content-Length", toString body.length) :: heading.injectedRequestHeaders ++
      [("Connection", "close")]

def Capture.message (C : Settings) (r : ClientRequest) (c : Capture) (body : Bytes)
    (whole : Bool) : Forwarded :=
  ⟨c.metadata.heading.inference, r.method, r.path, forwardedHeaders C r c.metadata.heading body,
    body, whole⟩

/-- The headers that go back. -/
def relayedHeaders (headers : Headers) : Headers :=
  headers.filter (fun h => !HOP_HEADERS.contains h.1.toLower) ++ [("Connection", "close")]

namespace Handler

variable (C : Settings) (s : Server) (h : Handler)

/-- A write into the folder of a capture. -/
def write (folder : List Char) (content : Content) (phase : Phase) : Server × Handler :=
  ({ s with disk := s.disk ++ [(h.id, ⟨folder, content⟩)] },
    { h with phase, written := h.written ++ [⟨folder, content⟩] })

def send (message : Forwarded) (phase : Phase) : Server × Handler :=
  ({ s with upstream := s.upstream ++ [(h.id, message)] },
    { h with phase, sent := h.sent ++ [message] })

def present (shown : Shown) (phase : Phase) : Server × Handler :=
  ({ s with client := s.client ++ [(h.id, shown)] },
    { h with phase, shown := h.shown ++ [shown] })

/-- The number of a handler is known: its folder, and what its metadata starts with. -/
def begin (a : Admission) (uuid : String) : Server × Handler :=
  if s.disk.any fun w => w.2.folder = folderName a.sequence then
    (s, { h with phase := .crashed (some a) })
  else
    let c := Capture.start C a h.request uuid
    h.write s c.folder .mkdir
      (if c.metadata.heading.unexpectedCredentials then
        .rejecting (c.fail "unexpected credentials; request body not read or forwarded") 403
          "unexpected credentials"
      else if !a.allowed then
        .rejecting (c.fail "session call or time limit") 429 "session call or time limit"
      else .reading c)

/-- The body of the request. -/
def readBody (c : Capture) : Server × Handler :=
  match body h.request.framing with
  | .error message => (s, { h with phase := .failing (c.fail ("ValueError: " ++ message)) })
  | .ok (bytes, _) =>
    h.write s c.folder (.requestBody bytes) (.sending { c with
      body := some bytes
      metadata := { c.metadata with
        requestSha256 := some (C.sha256 bytes), requestBytes := some bytes.length } } bytes)

/-- `upstream.endheaders(body)`, and what leads up to it. -/
def sendBody (c : Capture) (bytes : Bytes) : Sending → Server × Handler
  | .whole => h.send s (c.message C h.request bytes true) (.awaiting c)
  | .part error => h.send s (c.message C h.request bytes false) (.failing (c.fail error))
  | .nothing error => (s, { h with phase := .failing (c.fail error) })

/-- The head of the response. -/
def respond (c : Capture) (status : Nat) (reason : String) (headers : Headers)
    (failure : Option String) : Server × Handler :=
  let c := { c with metadata := { c.metadata with
    responseStatus := some status, responseHeaders := some (safeHeaders headers) } }
  match failure with
  | some error => (s, { h with phase := .failing (c.fail error) })
  | none =>
    let shown := h.present s (.head status reason (relayedHeaders headers)) h.phase
    shown.2.write shown.1 c.folder .responseFile (.relaying { c with pieces := some [] })

/-- A chunk of the response: first into the file, then to the client. -/
def relay (c : Capture) (bytes : Bytes) (cut : Option (Nat × String)) : Server × Handler :=
  let c := { c with
    pieces := c.pieces.map (· ++ [bytes])
    metadata := { c.metadata with chunks := c.metadata.chunks ++ [bytes.length] } }
  let written := h.write s c.folder (.responseBody bytes) h.phase
  match cut with
  | none => written.2.present written.1 (.chunk bytes) (.relaying c)
  | some (got, error) =>
    written.2.present written.1 (.chunk (bytes.take got)) (.ending (c.fail error))

/-- The checks behind the loop. -/
def settle (c : Capture) (length : Option Nat) : Server × Handler :=
  let missing := length.getD 0
  let c := if h.request.method ≠ "HEAD" ∧ missing ≠ 0 then
      c.fail s!"IncompleteRead: IncompleteRead(0 bytes read, {missing} more expected)"
    else if h.id ∈ s.cancelled then
      c.fail "InterruptedError: capture controller stopped request"
    else { c with metadata := { c.metadata with complete := true } }
  (s, { h with phase := .ending c })

/-- The `finally` clause. -/
def close (c : Capture) : Server × Handler :=
  let c := { c with metadata := { c.metadata with
    responseSha256 := some (C.sha256 (c.pieces.getD []).flatten)
    responseBytes := some c.metadata.chunks.sum } }
  let written := h.write s c.folder (.metadata c.metadata) (.done c)
  ({ written.1 with active := s.active.erase h.id }, written.2)

/-- One step of a handler. -/
def own : Act → Option (Server × Handler)
  | .register =>
    match h.phase with
    | .accepted => some ({ s with active := s.active ++ [h.id] }, { h with
        phase := ((inferenceRequest C h.request.method h.request.path).map Phase.active).getD
          (.crashed none) })
    | _ => none
  | .number now =>
    match h.phase with
    | .active inference =>
      let admission := s.admission C h.id inference now
      some (admission.1, { h with phase := .numbered admission.2 })
    | _ => none
  | .mkdir uuid =>
    match h.phase with
    | .numbered a => some (h.begin C s a uuid)
    | _ => none
  | .rejected failure =>
    match h.phase with
    | .rejecting c status message =>
      match failure with
      | none => some (h.present s (.reply status message) (.ending c))
      | some error => some (s, { h with phase := .failing (c.fail error) })
    | _ => none
  | .read failure =>
    match h.phase with
    | .reading c =>
      match failure with
      | none => some (h.readBody C s c)
      | some error => some (s, { h with phase := .failing (c.fail error) })
    | _ => none
  | .forwarded sending =>
    match h.phase with
    | .sending c bytes => some (h.sendBody C s c bytes sending)
    | _ => none
  | .responded status reason headers failure =>
    match h.phase with
    | .awaiting c => some (h.respond s c status reason headers failure)
    | _ => none
  | .chunk bytes now cut =>
    match h.phase with
    | .relaying c =>
      if h.request.method ≠ "HEAD" ∧ now < c.admission.deadline ∧ bytes ≠ [] ∧
          bytes.length ≤ 65536 then some (h.relay s c bytes cut)
      else none
    | _ => none
  | .late now =>
    match h.phase with
    | .relaying c =>
      if h.request.method ≠ "HEAD" ∧ c.admission.deadline ≤ now then
        some (s, { h with phase := .ending (c.fail "TimeoutError: session time limit") })
      else none
    | _ => none
  | .ended length =>
    match h.phase with
    | .relaying c => some (h.settle s c length)
    | _ => none
  | .failed error =>
    match h.phase with
    | .awaiting c => some (s, { h with phase := .failing (c.fail error) })
    | .relaying c => some (s, { h with phase := .ending (c.fail error) })
    | _ => none
  | .apologised sent =>
    match h.phase with
    | .failing c =>
      if sent then some (h.present s (.reply 502 "upstream or capture failure") (.ending c))
      else some (s, { h with phase := .ending c })
    | _ => none
  | .close =>
    match h.phase with
    | .ending c => some (h.close C s c)
    | _ => none

end Handler

/-! ## The system -/

/-- `cancel_active`: it lists the handlers under the lock, then stops them one by one. -/
inductive Control where
  | snapshot
  | stop

def Server.control (s : Server) : Control → Option Server
  | .snapshot => some { s with stopping := s.stopping ++ s.active }
  | .stop =>
    match s.stopping with
    | [] => none
    | id :: stopping => some { s with stopping, cancelled := s.cancelled ++ [id] }

/-- A connection with its request comes to a thread of its own. -/
def Server.accept (s : Server) (request : ClientRequest) : Server × Handler :=
  ({ s with accepted := s.accepted + 1 }, ⟨s.accepted, request, .accepted, [], [], []⟩)

def system (C : Settings) : Processes.System Server Handler Act Control ClientRequest where
  own s h a := h.own C s a
  env s b := s.control b
  enter s request := some (s.accept request)

end ReedCode.CaptureProxy
