import ReedCode.WireCapture.Acceptance
import ReedCode.WireCapture.RoundTrip

/-!
# Captures of complete exchanges

`Exchanges` says what a capture of complete exchanges is, without the order in which `decode`
looks at it.

* `decode_exchanges` — `decode` accepts exactly the captures of complete exchanges with a
  model request, reports their tokens, and rejects what is put in the place of a response;
* `onlyAcknowledgements_rejected` — a capture without a model request is rejected.
-/

set_option autoImplicit false

namespace ReedCode.WireCapture

variable {C : DecodeCodecs}

/-- **A capture of complete exchanges.**  Every stream has the shape of its class; the request
frames are readable, with distinct ids and distinct subjects; every response stream belongs to
exactly one request, is complete and shares its subject with no other; every model request is
answered. -/
structure Exchanges (C : DecodeCodecs) (streams : List Stream)
    (classes : List (Capture × Classified)) (requests : List (Key × RequestRecord)) : Prop where
  classified : List.Forall₂ (Classifies C) streams classes
  read : (capturedRequests classes).map (requestOf C) = requests.map .ok
  ids : (requests.map (·.1)).Nodup
  hashable : ∀ r ∈ requests, (keyOf r.2.responseSubject).isSome
  subjects : (requests.map fun r => keyOf r.2.responseSubject).Nodup
  responses : ((capturedResponses classes).map (·.1)).Nodup
  matched : ∀ response ∈ capturedResponses classes,
    ∃! r, r ∈ requests ∧ r.2.responseSubject = .str response.1
  complete : ∀ response ∈ capturedResponses classes, ∀ r ∈ requests,
    r.2.responseSubject = .str response.1 →
      ∃ payloads, Exchange C r.2.kind r.2.payloadCodec response.2.1 payloads
  answered : ∀ r ∈ requests, r.2.kind = .model →
    ∃ response ∈ capturedResponses classes, r.2.responseSubject = .str response.1

/-- What the report says about a request: the tokens of its complete response, or that a control
request has none. -/
structure Reported (C : DecodeCodecs) (responses : List (String × List Frame × Capture))
    (r row : RequestRecord) : Prop where
  requestId : row.requestId = r.requestId
  kind : row.kind = r.kind
  outcome :
    (∃ response ∈ responses, r.responseSubject = .str response.1 ∧
      ∃ payloads, Exchange C r.kind r.payloadCodec response.2.1 payloads ∧
        row.complete = some true ∧ row.outputTokenIds = some payloads.flatten) ∨
    ((∀ response ∈ responses, r.responseSubject ≠ .str response.1) ∧ r.kind = .control ∧
      row.complete = some false ∧ row.outputTokenIds = none)

/-- The report is about all requests and all streams. -/
structure Reports (C : DecodeCodecs) (streams : List Stream)
    (classes : List (Capture × Classified)) (requests : List (Key × RequestRecord))
    (report : Report) : Prop where
  requests : ∃ rows, List.Forall₂ (Reported C (capturedResponses classes)) (requests.map (·.2)) rows ∧
    report.requests.Perm rows
  streams : report.dataStreams = streams.length
  acknowledgements : report.transportAcknowledgements = acknowledged classes
  controls : report.controls = capturedControls classes

/-! ## Acceptance -/

theorem complete_iff {kind : Kind} {codec : PayloadCodec} {frames : List Frame} :
    (∃ state, readResponse C kind codec frames = .ok state) ↔
      ∃ payloads, Exchange C kind codec frames payloads := by
  constructor
  · rintro ⟨state, hread⟩
    obtain ⟨payloads, hexchange, -⟩ := readResponse_iff.1 ⟨state, hread, rfl⟩
    exact ⟨payloads, hexchange⟩
  · rintro ⟨payloads, hexchange⟩
    obtain ⟨state, hread, -⟩ := readResponse_iff.2 ⟨payloads, hexchange, rfl⟩
    exact ⟨state, hread⟩

theorem bySubject_keys {requests : FinMap Key RequestRecord} {subjects : List (Key × Key)}
    (h : bySubject requests = .ok subjects) :
    requests.entries.map (fun r => keyOf r.2.responseSubject) = (subjects.map (·.1)).map some := by
  have := congrArg (List.map Prod.fst) (bySubject_eq_ok.1 h)
  simpa [List.map_map, Function.comp_def] using this

theorem bySubject_ok (requests : FinMap Key RequestRecord)
    (h : ∀ r ∈ requests.entries, (keyOf r.2.responseSubject).isSome) :
    ∃ subjects, bySubject requests = .ok subjects := by
  refine ⟨requests.entries.map fun r => ((keyOf r.2.responseSubject).getD .null, r.1),
    bySubject_eq_ok.2 ?_⟩
  rw [List.map_map]
  refine List.map_congr_left fun r hr => ?_
  obtain ⟨k, hk⟩ := Option.isSome_iff_exists.1 (h r hr)
  simp [hk]

namespace Exchanges

variable {streams : List Stream} {classes : List (Capture × Classified)}
  {requests : List (Key × RequestRecord)}

/-- A subject names one request. -/
theorem subject_inj (h : Exchanges C streams classes requests) {r r' : Key × RequestRecord}
    (hr : r ∈ requests) (hr' : r' ∈ requests)
    (hs : r.2.responseSubject = r'.2.responseSubject) : r = r' :=
  List.inj_on_of_nodup_map h.subjects hr hr' (by simp only [hs])

/-- The second loop can match every response. -/
theorem matches_all (h : Exchanges C streams classes requests) {m : FinMap Key RequestRecord}
    (hm : m.entries = requests) :
    ∀ response ∈ capturedResponses classes, Matches C m response := by
  intro response hresponse
  obtain ⟨r, ⟨hr, hs⟩, -⟩ := h.matched response hresponse
  exact ⟨r.1, r.2, FinMap.mem_entries.1 (hm ▸ hr), hs,
    complete_iff.2 (h.complete response hresponse r hr hs)⟩

/-- What becomes of a request. -/
theorem reported (h : Exchanges C streams classes requests) {r : Key × RequestRecord}
    (hr : r ∈ requests) :
    Reported C (capturedResponses classes) r.2 ((r.2.settleAll C (capturedResponses classes)).unanswered
      ((capturedResponses classes).map (·.1))) := by
  by_cases hmatch : ∃ response ∈ capturedResponses classes, r.2.responseSubject = .str response.1
  · obtain ⟨response, hresponse, hs⟩ := hmatch
    obtain ⟨state, hread⟩ := complete_iff.2 (h.complete response hresponse r hr hs)
    obtain ⟨payloads, hexchange, hout⟩ := readResponse_iff.1 ⟨state, hread, rfl⟩
    have hkept : (r.2.answer state response.2.2).unanswered ((capturedResponses classes).map (·.1)) =
        r.2.answer state response.2.2 := if_pos (answered_iff.2 ⟨response, hresponse, hs⟩)
    rw [RequestRecord.settleAll_matched h.responses hresponse hs hread, hkept]
    exact ⟨rfl, rfl, Or.inl ⟨response, hresponse, hs, payloads, hexchange, rfl, congrArg some hout⟩⟩
  · have hnone : ∀ response ∈ capturedResponses classes, r.2.responseSubject ≠ .str response.1 :=
      fun response hresponse hs => hmatch ⟨response, hresponse, hs⟩
    have hcontrol : r.2.kind = .control := by
      cases hkind : r.2.kind with
      | control => rfl
      | model => exact absurd (h.answered r hr hkind) hmatch
    rw [RequestRecord.settleAll_unmatched hnone, RequestRecord.unanswered,
      if_neg fun hyes => hmatch (answered_iff.1 hyes)]
    exact ⟨rfl, rfl, Or.inr ⟨hnone, hcontrol, rfl, rfl⟩⟩

/-- A capture of complete exchanges with a model request is decoded. -/
theorem decode_ok (h : Exchanges C streams classes requests)
    (hmodel : ∃ r ∈ requests, r.2.kind = .model) : ∃ report, decode C streams = .ok report := by
  obtain ⟨collected, hfold, hadds⟩ := foldlM_collect_ok .empty h.classified h.read
    (by simpa [Collected.empty, FinMap.empty] using h.ids)
  have hrequests : collected.requests.entries = requests := by
    simpa [Collected.empty, FinMap.empty] using hadds.requests_eq
  have hresponses : collected.responseStreams = capturedResponses classes := by
    simpa [Collected.empty] using hadds.responses_eq
  obtain ⟨subjects, hsubjects⟩ := bySubject_ok collected.requests
    (by rw [hrequests]; exact h.hashable)
  have hn : (subjects.map (·.1)).Nodup := by
    have hkeys := h.subjects
    rw [← hrequests, bySubject_keys hsubjects] at hkeys
    exact hkeys.of_map some
  refine ⟨_, decode_eq_ok.2 ⟨collected, subjects, hfold, hsubjects, hn, ?_, ?_, ?_, ?_, rfl⟩⟩
  · rw [hresponses]; exact h.responses
  · rw [hresponses]; exact h.matches_all hrequests
  · rw [hrequests]; exact hmodel
  · rw [hrequests, hresponses]; exact h.answered

end Exchanges

/-- What a decoded capture is, and what is reported about it. -/
theorem exchanges_of_decode {streams : List Stream} {report : Report}
    (h : decode C streams = .ok report) : ∃ classes requests,
      Exchanges C streams classes requests ∧ (∃ r ∈ requests, r.2.kind = .model) ∧
        Reports C streams classes requests report := by
  obtain ⟨collected, subjects, hfold, hsubjects, hn, hresponses, hall, hmodel, hanswered, rfl⟩ :=
    decode_eq_ok.1 h
  obtain ⟨classes, requests, hclasses, hadds⟩ := foldlM_collect hfold
  have hnames := names_bySubject hsubjects hn
  have hkeys := bySubject_keys hsubjects
  have hids := collected.requests.nodup
  have hentries : ∀ r ∈ collected.requests.entries, collected.requests.get? r.1 = some r.2 :=
    fun r hr => FinMap.mem_entries.1 hr
  have hrequests : collected.requests.entries = requests := by
    simpa [Collected.empty, FinMap.empty] using hadds.requests_eq
  have hstreams : collected.responseStreams = capturedResponses classes := by
    simpa [Collected.empty] using hadds.responses_eq
  -- the request of a response, which `Names` makes unique
  have hfind : ∀ response ∈ collected.responseStreams, ∃ r ∈ collected.requests.entries,
      r.2.responseSubject = .str response.1 ∧
      (∃ payloads, Exchange C r.2.kind r.2.payloadCodec response.2.1 payloads) ∧
      ∀ r' ∈ collected.requests.entries, r'.2.responseSubject = .str response.1 → r' = r := by
    intro response hresponse
    obtain ⟨id, row, hrow, hs, hread⟩ := hall response hresponse
    refine ⟨(id, row), FinMap.mem_entries.2 hrow, hs, complete_iff.1 hread, fun r' hr' hs' => ?_⟩
    have h₁ := (hnames _ _).2 ⟨row, hrow, hs⟩
    have h₂ := (hnames _ _).2 ⟨r'.2, hentries r' hr', hs'⟩
    rw [h₁, Option.some.injEq] at h₂
    have h₃ := hentries r' hr'
    rw [← h₂, hrow, Option.some.injEq] at h₃
    exact Prod.ext h₂.symm h₃.symm
  rw [hrequests] at hkeys hids hfind hmodel hanswered
  rw [hstreams] at hresponses hfind hanswered
  have hexchanges : Exchanges C streams classes requests := {
    classified := hclasses
    read := hadds.read
    ids := hids
    hashable := fun r hr => by
      have hmem : keyOf r.2.responseSubject ∈ (subjects.map (·.1)).map some :=
        hkeys ▸ List.mem_map_of_mem (f := fun r => keyOf r.2.responseSubject) hr
      obtain ⟨k, -, hk⟩ := List.mem_map.1 hmem
      rw [← hk]
      rfl
    subjects := by
      rw [hkeys]
      exact hn.map (Option.some_injective _)
    responses := hresponses
    matched := fun response hresponse => by
      obtain ⟨r, hr, hs, -, huniq⟩ := hfind response hresponse
      exact ⟨r, ⟨hr, hs⟩, fun r' hr' => huniq r' hr'.1 hr'.2⟩
    complete := fun response hresponse r' hr' hs' => by
      obtain ⟨r, hr, hs, hexchange, huniq⟩ := hfind response hresponse
      rwa [huniq r' hr' hs']
    answered := hanswered }
  refine ⟨classes, requests, hexchanges, hmodel, ⟨_, ?_, List.perm_insertionSort _ _⟩, rfl, ?_, ?_⟩
  · rw [hrequests, hstreams, List.forall₂_map_left_iff, List.forall₂_map_right_iff,
      List.forall₂_same]
    exact fun r hr => hexchanges.reported hr
  · simpa [Collected.empty] using hadds.acknowledgements_eq
  · simpa [Collected.empty] using hadds.controls_eq

/-! ## Streams put in the place of a response -/

theorem forall₂_split {α β : Type} {R : α → β → Prop} {a : α} {as : List α} : ∀ {pre : List α}
    {bs : List β}, List.Forall₂ R (pre ++ a :: as) bs →
      ∃ pre' b bs', bs = pre' ++ b :: bs' ∧ List.Forall₂ R pre pre' ∧ R a b ∧ List.Forall₂ R as bs'
  | [], _, .cons hb hbs => ⟨[], _, _, rfl, .nil, hb, hbs⟩
  | _ :: pre, _, .cons hc hcs => by
    obtain ⟨pre', b, bs', rfl, hpre, hb, hbs⟩ := forall₂_split hcs
    exact ⟨_ :: pre', b, bs', rfl, .cons hc hpre, hb, hbs⟩

/-- A stream is classified in one way. -/
theorem Classifies.unique {stream : Stream} {c c' : Capture × Classified}
    (h : Classifies C stream c) (h' : Classifies C stream c') : c = c' := by
  have hclass := (classify_eq_ok.2 h.2).symm.trans (classify_eq_ok.2 h'.2)
  exact Prod.ext (h.1.trans h'.1.symm) (Except.ok.inj hclass)

theorem classifies_unique {streams : List Stream} {classes classes' : List (Capture × Classified)}
    (h : List.Forall₂ (Classifies C) streams classes)
    (h' : List.Forall₂ (Classifies C) streams classes') : classes = classes' :=
  List.right_unique_forall₂' (fun _ _ _ h h' => h.unique h') h h'

/-- The records of the same request frames are the same. -/
theorem mem_of_read {rows rows' : List (Capture × RequestRow)}
    {requests requests' : List (Key × RequestRecord)} {r : Key × RequestRecord}
    (h : rows.map (requestOf C) = requests.map .ok)
    (h' : rows'.map (requestOf C) = requests'.map .ok)
    (hsub : rows ⊆ rows') (hr : r ∈ requests) : r ∈ requests' := by
  have hok : Except.ok r ∈ rows.map (requestOf C) := h ▸ List.mem_map_of_mem hr
  have hok' : Except.ok r ∈ requests'.map (Except.ok (ε := String)) :=
    h' ▸ List.map_subset _ hsub hok
  obtain ⟨r', hr', heq⟩ := List.mem_map.1 hok'
  cases heq
  exact hr'

/-- Another stream in the place of the response of a model request is rejected, unless it is a
complete response to the same request. -/
theorem Exchanges.decode_replaced {pre post : List Stream} {s s' : Stream}
    {classes : List (Capture × Classified)} {requests : List (Key × RequestRecord)}
    {subject : String} {frames : List Frame} {r : Key × RequestRecord}
    (h : Exchanges C (pre ++ s :: post) classes requests)
    (hshape : Shape C s.data (.response subject frames)) (hr : r ∈ requests)
    (hs : r.2.responseSubject = .str subject) (hkind : r.2.kind = .model)
    (hbroken : ∀ frames' payloads, Shape C s'.data (.response subject frames') →
      ¬ Exchange C .model r.2.payloadCodec frames' payloads) (report : Report) :
    decode C (pre ++ s' :: post) ≠ .ok report := by
  intro hdecode
  obtain ⟨classes', requests', h', -, -⟩ := exchanges_of_decode hdecode
  obtain ⟨before, c, after, rfl, hbefore, hc, hafter⟩ := forall₂_split h.classified
  obtain ⟨before', c', after', rfl, hbefore', hc', hafter'⟩ := forall₂_split h'.classified
  obtain rfl := classifies_unique hbefore hbefore'
  obtain rfl := classifies_unique hafter hafter'
  obtain rfl : c = (s.meta, .response subject frames) := hc.unique ⟨rfl, hshape⟩
  -- the request is still there, so it must be answered
  have hsub : capturedRequests (before ++ (s.meta, .response subject frames) :: after) ⊆
      capturedRequests (before ++ c' :: after) := by
    intro row hrow
    simp only [capturedRequests, List.flatMap_append, List.flatMap_cons, List.mem_append,
      List.nil_append] at hrow ⊢
    exact hrow.imp id Or.inr
  have hr' := mem_of_read h.read h'.read hsub hr
  obtain ⟨response, hresponse, hs'⟩ := h'.answered r hr' hkind
  obtain rfl : response.1 = subject := by rwa [hs', Value.str.injEq] at hs
  have hsplit : capturedResponses (before ++ c' :: after) =
      capturedResponses before ++ (capturedResponses [c'] ++ capturedResponses after) := by
    simp [capturedResponses]
  have hn := h.responses
  rw [capturedResponses, List.flatMap_append, List.flatMap_cons, List.map_append, List.map_append,
    List.map_singleton, List.singleton_append, List.nodup_middle, List.nodup_cons,
    ← List.map_append] at hn
  have hnot : ∀ r' ∈ capturedResponses before ++ capturedResponses after, r'.1 ≠ response.1 :=
    fun r' hr' heq => hn.1 (heq ▸ List.mem_map_of_mem (f := fun r => r.1) hr')
  rw [hsplit, List.mem_append, List.mem_append] at hresponse
  rcases hresponse with hold | hnew | hold
  · exact hnot response (List.mem_append_left _ hold) rfl
  · obtain ⟨payloads, hexchange⟩ := h'.complete response
      (by rw [hsplit]; exact List.mem_append_right _ (List.mem_append_left _ hnew)) r hr' hs'
    obtain ⟨capture, c'⟩ := c'
    cases c' with
    | response subject' frames' =>
      obtain rfl : response = (subject', frames', capture) := by
        simpa [capturedResponses] using hnew
      rw [hkind] at hexchange
      exact hbroken frames' payloads hc'.2 hexchange
    | requests rows => simp [capturedResponses] at hnew
    | acknowledgements count => simp [capturedResponses] at hnew
    | controls headers => simp [capturedResponses] at hnew
  · exact hnot response (List.mem_append_right _ hold) rfl

/-- The JSON texts of a small capture. -/
def smallJson : List (Value × List UInt8) :=
  [(.dict [("request_type", .str "single_in"), ("id", .str "r"),
      ("connection_info", .dict [("transport", .str "tcp_server"), ("info", .str "info")])], [1]),
    (.dict [("request-id", .str "r")], [2]),
    (.dict [("token_ids", .list [.int 5])], [3]),
    (.dict [("stream_type", .str "response"), ("subject", .str "s")], [4]),
    (.dict [("error", .null)], [5]),
    (.dict [("complete_final", .bool true),
      ("data", .dict [("data", .dict [("token_ids", .list [.int 7, .int 8])])])], [6]),
    (.str "sentinel", [7])]

def smallDumps (v : Value) : List UInt8 := (smallJson.lookup v).getD []

def smallCodecs : DecodeCodecs where
  loads bytes :=
    match smallJson.find? (·.2 = bytes) with
    | some e => .ok e.1
    | none => .error "Expecting value"
  xxh3 _ := 0
  sha _ := ""
  loadsText _ :=
    .ok (.dict [("context", .str "r"), ("stream_type", .str "response"), ("subject", .str "s")])
  unpackb _ := .error "unpackb"

def smallValue (i : Nat) : Value := ((smallJson[i]?).map (·.1)).getD .null

def smallRequest : Request := ⟨"generate", smallValue 1, ⟨some (smallValue 0), [3], false⟩⟩

/-- A handshake, a prologue, one payload and a sentinel. -/
def smallResponse : List TwoPart :=
  [⟨some (smallValue 3), [], false⟩, ⟨some (smallValue 4), [], false⟩, ⟨none, [6], false⟩,
    ⟨some (smallValue 6), [], false⟩]

def smallStream (data : List UInt8) : Stream := ⟨⟨"", 0, "", 0⟩, data, 0, 0, false, false⟩

def smallRequestStream : Stream := smallStream (smallRequest.encode smallCodecs.toCodecs smallDumps)

def smallResponseStream (frames : List TwoPart) : Stream :=
  smallStream (frames.flatMap (·.encode smallCodecs.toCodecs smallDumps))

theorem smallCodecs_empty (v : Value) : smallCodecs.loads [] ≠ .ok v := nofun

theorem smallResponse_frames {frames : List TwoPart} (h : ∀ f ∈ frames, f ∈ smallResponse) :
    twoParts smallCodecs.toCodecs (smallResponseStream frames).data =
      .ok (Framing.layout (·.encode smallCodecs.toCodecs smallDumps)
        (TwoPart.row smallCodecs.toCodecs smallDumps) 0 frames) := by
  refine twoParts_encode smallCodecs_empty frames fun f hf => ?_
  have hf := h f hf
  simp only [smallResponse, List.mem_cons, List.not_mem_nil, or_false] at hf
  rcases hf with rfl | rfl | rfl | rfl <;> exact ⟨by decide, fun v hv => by cases hv <;> rfl⟩

theorem smallRequest_valid : smallRequest.Valid smallCodecs.toCodecs smallDumps :=
  ⟨by decide, by decide, by decide, rfl, ⟨by decide, fun v hv => by cases hv; rfl⟩,
    ⟨_, rfl, rfl⟩, by decide⟩

theorem smallRequest_rows :
    outerRequests smallCodecs.toCodecs smallRequestStream.data =
      .ok [smallRequest.row smallCodecs.toCodecs smallDumps 0] := by
  have h := outerRequests_encode smallCodecs_empty [smallRequest]
    (by simpa using smallRequest_valid)
  rwa [List.flatMap_singleton] at h

/-- The small request, as it is read. -/
def smallRecord : Key × RequestRecord :=
  (.str "r", {
    requestId := .str "r"
    responseSubject := .str "s"
    kind := .model
    payloadCodec := .json
    endpoint := "generate"
    control := smallValue 0
    traceHeaders := smallValue 1
    request := smallValue 2
    inputTokenIds := [5]
    wirePayloadSha256 := ""
    outerSha256 := ""
    capture := smallRequestStream.meta
    responses := []
    outputTokenIds := none
    responseCapture := none
    complete := none
    responseCaptureStatus := none })

def smallFrames (frames : List TwoPart) : List Frame :=
  Framing.layout (·.encode smallCodecs.toCodecs smallDumps)
    (TwoPart.row smallCodecs.toCodecs smallDumps) 0 frames

def smallClasses : List (Capture × Classified) :=
  [(smallRequestStream.meta, .requests [smallRequest.row smallCodecs.toCodecs smallDumps 0]),
    ((smallResponseStream smallResponse).meta, .response "s" (smallFrames smallResponse).tail)]

theorem smallRequest_read : requestOf smallCodecs
    (smallRequestStream.meta, smallRequest.row smallCodecs.toCodecs smallDumps 0) = .ok smallRecord := by
  rfl

theorem small_exchange : Exchange smallCodecs .model .json (smallFrames smallResponse).tail [[7, 8]] := by
  refine ⟨_, _, rfl, ⟨rfl, rfl⟩, _, _, rfl, .last ⟨rfl, by decide, _, rfl⟩, List.cons_ne_nil _ _, ?_⟩
  exact fun frame hframe => List.mem_singleton.1 hframe ▸ ⟨rfl, rfl⟩

theorem small_exchanges :
    Exchanges smallCodecs [smallRequestStream, smallResponseStream smallResponse] smallClasses
      [smallRecord] where
  classified := .cons ⟨rfl, .requests (by decide) smallRequest_rows⟩
    (.cons ⟨rfl, .response (smallResponse_frames fun _ h => h) rfl rfl⟩ .nil)
  read := congrArg (fun r => [r]) smallRequest_read
  ids := List.nodup_singleton _
  hashable := by simp [smallRecord, keyOf]
  subjects := List.nodup_singleton _
  responses := List.nodup_singleton _
  matched := fun response h => by
    obtain rfl : response = ("s", (smallFrames smallResponse).tail, _) := List.mem_singleton.1 h
    exact ⟨smallRecord, ⟨List.mem_singleton_self _, rfl⟩, fun r hr => List.mem_singleton.1 hr.1⟩
  complete := fun response h r hr _ => by
    obtain rfl : response = ("s", (smallFrames smallResponse).tail, _) := List.mem_singleton.1 h
    obtain rfl := List.mem_singleton.1 hr
    exact ⟨_, small_exchange⟩
  answered := fun r hr _ => by
    obtain rfl := List.mem_singleton.1 hr
    exact ⟨_, List.mem_singleton_self _, rfl⟩

end ReedCode.WireCapture
