import ReedCode.WireCapture.Exchange
import Mathlib.Data.List.Forall2

/-!
# The loops of `decode`

What the classified streams contribute, and what the two loops make of it.

* `foldlM_addRequest`, `foldlM_collect`, `foldlM_matchResponse` — what the loops collect;
* `decode_eq_ok` — the conditions under which a capture is decoded.
-/

set_option autoImplicit false

namespace ReedCode.WireCapture

variable {C : DecodeCodecs}

/-- The id and the record of a request frame. -/
def requestOf (C : DecodeCodecs) (captured : Capture × RequestRow) :
    Except String (Key × RequestRecord) := do
  let id ← requestKey captured.2
  let record ← requestRecord C captured.1 captured.2 id
  return (id.2, record)

/-- The request frames of the classified streams. -/
def capturedRequests (classes : List (Capture × Classified)) : List (Capture × RequestRow) :=
  classes.flatMap fun c =>
    match c.2 with
    | .requests rows => rows.map fun row => (c.1, row)
    | _ => []

/-- The response streams of the classified streams. -/
def capturedResponses (classes : List (Capture × Classified)) :
    List (String × List Frame × Capture) :=
  classes.flatMap fun c =>
    match c.2 with
    | .response subject frames => [(subject, frames, c.1)]
    | _ => []

def Classifies (C : DecodeCodecs) (stream : Stream) (c : Capture × Classified) : Prop :=
  c.1 = stream.meta ∧ Shape C stream.data c.2

/-- How many acknowledgements the classified streams hold. -/
def acknowledged (classes : List (Capture × Classified)) : Nat :=
  (classes.map fun c =>
    match c.2 with
    | .acknowledgements count => count
    | _ => 0).sum

/-- The control streams of the classified streams. -/
def capturedControls (classes : List (Capture × Classified)) : List (Capture × List Value) :=
  classes.flatMap fun c =>
    match c.2 with
    | .controls headers => [(c.1, headers)]
    | _ => []

/-! ## The first loop -/

theorem addRequest_eq_ok {m m' : FinMap Key RequestRecord} {captured : Capture × RequestRow} :
    addRequest C m captured = .ok m' ↔
      ∃ r, requestOf C captured = .ok r ∧ m'.entries = m.entries ++ [r] := by
  unfold addRequest requestOf
  simp only [Except.bind_eq_ok_iff, Except.failIf_eq_ok, exists_const, pure, Except.pure,
    Except.ok.injEq]
  simp only [FinMap.contains_eq_isSome, Bool.not_eq_true, Option.isSome_eq_false_iff,
    Option.isNone_iff_eq_none]
  constructor
  · rintro ⟨id, hid, hnew, record, hrecord, rfl⟩
    exact ⟨_, ⟨id, hid, record, hrecord, rfl⟩, FinMap.entries_insert_of_none hnew⟩
  · rintro ⟨_, ⟨id, hid, record, hrecord, rfl⟩, hentries⟩
    have hnew : m.get? id.2 = none := by
      have hn := m'.nodup
      rw [hentries, List.map_append, List.nodup_append] at hn
      exact FinMap.not_mem_keys.1 fun h => hn.2.2 _ h _ (by simp) rfl
    exact ⟨id, hid, hnew, record, hrecord,
      FinMap.ext (by rw [FinMap.entries_insert_of_none hnew, hentries])⟩

/-- Request frames are appended in order; an id that comes twice is rejected. -/
theorem foldlM_addRequest : ∀ {rows : List (Capture × RequestRow)} {m m' : FinMap Key RequestRecord},
    rows.foldlM (addRequest C) m = .ok m' ↔
      ∃ rs, rows.map (requestOf C) = rs.map .ok ∧ m'.entries = m.entries ++ rs
  | [], m, m' => by
    simp only [List.foldlM_nil, pure, Except.pure, Except.ok.injEq, List.map_nil]
    constructor
    · rintro rfl; exact ⟨[], rfl, (List.append_nil _).symm⟩
    · rintro ⟨rs, hrs, hm⟩
      rw [List.map_eq_nil_iff.1 hrs.symm, List.append_nil] at hm
      exact FinMap.ext hm.symm
  | row :: rows, m, m' => by
    rw [List.foldlM_cons, Except.bind_eq_ok_iff]
    constructor
    · rintro ⟨m₁, hadd, hfold⟩
      obtain ⟨r, hr, h₁⟩ := addRequest_eq_ok.1 hadd
      obtain ⟨rs, hrs, hm⟩ := foldlM_addRequest.1 hfold
      exact ⟨r :: rs, by rw [List.map_cons, List.map_cons, hr, hrs], by
        rw [hm, h₁, List.append_assoc, List.singleton_append]⟩
    · rintro ⟨rs, hrs, hm⟩
      cases rs with
      | nil => simp at hrs
      | cons r rs =>
        rw [List.map_cons, List.map_cons, List.cons.injEq] at hrs
        have hn : ((m.entries ++ [r]).map Prod.fst).Nodup := by
          have hn := m'.nodup
          rw [hm, ← List.singleton_append, ← List.append_assoc, List.map_append] at hn
          exact (List.nodup_append.1 hn).1
        exact ⟨⟨m.entries ++ [r], hn⟩, addRequest_eq_ok.2 ⟨r, hrs.1, rfl⟩,
          foldlM_addRequest.2 ⟨rs, hrs.2, by rw [hm, List.append_assoc, List.singleton_append]⟩⟩

/-- What the streams of some classes add to what has been collected. -/
structure Collected.Adds (C : DecodeCodecs) (acc acc' : Collected)
    (classes : List (Capture × Classified)) (requests : List (Key × RequestRecord)) : Prop where
  read : (capturedRequests classes).map (requestOf C) = requests.map .ok
  requests_eq : acc'.requests.entries = acc.requests.entries ++ requests
  responses_eq : acc'.responseStreams = acc.responseStreams ++ capturedResponses classes
  acknowledgements_eq : acc'.acknowledgements = acc.acknowledgements + acknowledged classes
  controls_eq : acc'.controls = acc.controls ++ capturedControls classes

theorem Collected.Adds.append {acc acc₁ acc₂ : Collected}
    {classes₁ classes₂ : List (Capture × Classified)} {requests₁ requests₂ : List (Key × RequestRecord)}
    (h₁ : Adds C acc acc₁ classes₁ requests₁) (h₂ : Adds C acc₁ acc₂ classes₂ requests₂) :
    Adds C acc acc₂ (classes₁ ++ classes₂) (requests₁ ++ requests₂) where
  read := by
    rw [capturedRequests, List.flatMap_append, List.map_append, List.map_append]
    exact congrArg₂ (· ++ ·) h₁.read h₂.read
  requests_eq := by rw [h₂.requests_eq, h₁.requests_eq, List.append_assoc]
  responses_eq := by
    rw [h₂.responses_eq, h₁.responses_eq, List.append_assoc, capturedResponses, capturedResponses,
      capturedResponses, List.flatMap_append]
  acknowledgements_eq := by
    rw [h₂.acknowledgements_eq, h₁.acknowledgements_eq, acknowledged, acknowledged, acknowledged,
      List.map_append, List.sum_append, Nat.add_assoc]
  controls_eq := by
    rw [h₂.controls_eq, h₁.controls_eq, List.append_assoc, capturedControls, capturedControls,
      capturedControls, List.flatMap_append]

/-- One turn of the first loop succeeds exactly if the stream has a shape and its requests are
readable and new. -/
theorem Collected.add_eq_ok {acc : Collected} {stream : Stream} :
    (∀ {acc'}, acc.add C stream = .ok acc' → ∃ c requests, Classifies C stream c ∧
      Adds C acc acc' [c] requests) ∧
    ∀ {c requests}, Classifies C stream c →
      (capturedRequests [c]).map (requestOf C) = requests.map .ok →
      ((acc.requests.entries ++ requests).map Prod.fst).Nodup →
      ∃ acc', acc.add C stream = .ok acc' ∧ Adds C acc acc' [c] requests := by
  constructor
  · intro acc' h
    unfold Collected.add at h
    obtain ⟨c, hc, h⟩ := Except.bind_eq_ok_iff.1 h
    have hshape : Classifies C stream (stream.meta, c) := ⟨rfl, classify_eq_ok.1 hc⟩
    cases c with
    | requests rows =>
      obtain ⟨m, hm, h⟩ := Except.bind_eq_ok_iff.1 h
      obtain ⟨rs, hrs, hentries⟩ := foldlM_addRequest.1 hm
      cases h
      exact ⟨_, rs, hshape, by simpa [capturedRequests] using hrs, hentries,
        by simp [capturedResponses],
        by simp [acknowledged], by simp [capturedControls]⟩
    | acknowledgements count =>
      cases h
      exact ⟨_, [], hshape, rfl, by simp, by simp [capturedResponses],
        by simp [acknowledged], by simp [capturedControls]⟩
    | response subject frames =>
      cases h
      exact ⟨_, [], hshape, rfl, by simp, by simp [capturedResponses],
        by simp [acknowledged], by simp [capturedControls]⟩
    | controls headers =>
      cases h
      exact ⟨_, [], hshape, rfl, by simp, by simp [capturedResponses],
        by simp [acknowledged], by simp [capturedControls]⟩
  · rintro ⟨capture, c⟩ requests ⟨hcapture, hshape⟩ hread hn
    obtain rfl : capture = stream.meta := hcapture
    unfold Collected.add
    rw [classify_eq_ok.2 hshape]
    cases c with
    | requests rows =>
      have hread' : (rows.map fun row => (stream.meta, row)).map (requestOf C) = requests.map .ok := by
        simpa [capturedRequests] using hread
      have hfold : (rows.map fun row => (stream.meta, row)).foldlM (addRequest C) acc.requests =
          .ok ⟨acc.requests.entries ++ requests, hn⟩ := foldlM_addRequest.2 ⟨_, hread', rfl⟩
      exact ⟨_, Except.bind_eq_ok_iff.2 ⟨_, rfl, Except.bind_eq_ok_iff.2 ⟨_, hfold, rfl⟩⟩,
        hread, rfl, by simp [capturedResponses],
        by simp [acknowledged], by simp [capturedControls]⟩
    | acknowledgements count =>
      obtain rfl : requests = [] := List.map_eq_nil_iff.1 hread.symm
      exact ⟨_, rfl, hread, by simp, by simp [capturedResponses],
        by simp [acknowledged], by simp [capturedControls]⟩
    | response subject frames =>
      obtain rfl : requests = [] := List.map_eq_nil_iff.1 hread.symm
      exact ⟨_, rfl, hread, by simp, by simp [capturedResponses],
        by simp [acknowledged], by simp [capturedControls]⟩
    | controls headers =>
      obtain rfl : requests = [] := List.map_eq_nil_iff.1 hread.symm
      exact ⟨_, rfl, hread, by simp, by simp [capturedResponses],
        by simp [acknowledged], by simp [capturedControls]⟩

theorem capturedRequests_cons (c : Capture × Classified) (classes : List (Capture × Classified)) :
    capturedRequests (c :: classes) = capturedRequests [c] ++ capturedRequests classes := by
  simp [capturedRequests]

/-- What the first loop has collected when it succeeds. -/
theorem foldlM_collect : ∀ {streams : List Stream} {acc acc' : Collected},
    streams.foldlM (Collected.add C) acc = .ok acc' →
      ∃ classes requests, List.Forall₂ (Classifies C) streams classes ∧
        Collected.Adds C acc acc' classes requests
  | [], acc, acc', h => by
    simp only [List.foldlM_nil, pure, Except.pure, Except.ok.injEq] at h
    subst h
    exact ⟨[], [], .nil, rfl, by simp, by simp [capturedResponses],
        by simp [acknowledged], by simp [capturedControls]⟩
  | stream :: streams, acc, acc', h => by
    rw [List.foldlM_cons, Except.bind_eq_ok_iff] at h
    obtain ⟨acc₁, hadd, hfold⟩ := h
    obtain ⟨c, requests₁, hc, h₁⟩ := Collected.add_eq_ok.1 hadd
    obtain ⟨classes, requests₂, hclasses, h₂⟩ := foldlM_collect hfold
    exact ⟨c :: classes, requests₁ ++ requests₂, .cons hc hclasses, h₁.append h₂⟩

/-- The first loop succeeds on streams of some shape with readable requests of distinct ids. -/
theorem foldlM_collect_ok : ∀ {streams : List Stream} {classes : List (Capture × Classified)}
    (acc : Collected) {requests : List (Key × RequestRecord)},
    List.Forall₂ (Classifies C) streams classes →
      (capturedRequests classes).map (requestOf C) = requests.map .ok →
      ((acc.requests.entries ++ requests).map Prod.fst).Nodup →
      ∃ acc', streams.foldlM (Collected.add C) acc = .ok acc' ∧
        Collected.Adds C acc acc' classes requests
  | [], _, acc, requests, .nil, hread, _ => by
    obtain rfl : requests = [] := List.map_eq_nil_iff.1 hread.symm
    exact ⟨acc, rfl, rfl, by simp, by simp [capturedResponses],
        by simp [acknowledged], by simp [capturedControls]⟩
  | stream :: streams, c :: classes, acc, requests, .cons hc hclasses, hread, hn => by
    rw [capturedRequests_cons, List.map_append] at hread
    obtain ⟨requests₁, requests₂, rfl, h₁, h₂⟩ := List.map_eq_append_iff.1 hread.symm
    rw [← List.append_assoc] at hn
    have hn₁ : ((acc.requests.entries ++ requests₁).map Prod.fst).Nodup := by
      rw [List.map_append] at hn
      exact (List.nodup_append.1 hn).1
    obtain ⟨acc₁, hadd, hadds₁⟩ := Collected.add_eq_ok.2 hc h₁.symm hn₁
    rw [← hadds₁.requests_eq] at hn
    obtain ⟨acc₂, hfold, hadds₂⟩ := foldlM_collect_ok acc₁ hclasses h₂.symm hn
    exact ⟨acc₂, by rw [List.foldlM_cons, Except.bind_eq_ok_iff]; exact ⟨acc₁, hadd, hfold⟩,
      hadds₁.append hadds₂⟩

/-! ## Subjects -/

@[simp] theorem keyOf_eq_str {v : Value} {s : String} : keyOf v = some (.str s) ↔ v = .str s := by
  cases v <;> simp [keyOf]

theorem hashed_eq_ok {v : Value} {k : Key} : hashed v = .ok k ↔ keyOf v = some k := by
  unfold hashed
  split
  · rename_i h; simp [h]
  · rename_i h; simp [h]

/-- The subjects lead to the requests that have them. -/
def Names (subjects : List (Key × Key)) (requests : FinMap Key RequestRecord) : Prop :=
  ∀ s id, subjects.lookup (.str s) = some id ↔
    ∃ row, requests.get? id = some row ∧ row.responseSubject = .str s

/-- The subjects are those of the requests, in order. -/
theorem bySubject_eq_ok {requests : FinMap Key RequestRecord} {subjects : List (Key × Key)} :
    bySubject requests = .ok subjects ↔
      requests.entries.map (fun r => (keyOf r.2.responseSubject, r.1)) =
        subjects.map fun p => (some p.1, p.2) := by
  unfold bySubject
  rw [Except.mapM_eq_ok]
  generalize requests.entries = entries
  induction entries generalizing subjects with
  | nil => cases subjects <;> simp
  | cons r entries ih =>
    cases subjects with
    | nil => simp
    | cons p subjects =>
      simp only [List.map_cons, List.cons.injEq, ih]
      refine and_congr_left fun _ => ?_
      unfold hashed
      cases h : keyOf r.2.responseSubject with
      | none => simp [Except.map]
      | some k => simp [Except.map, Prod.ext_iff]

theorem lookup_eq_some_iff_mem {subjects : List (Key × Key)} (hn : (subjects.map (·.1)).Nodup)
    {k id : Key} : subjects.lookup k = some id ↔ (k, id) ∈ subjects := by
  induction subjects with
  | nil => simp
  | cons p subjects ih =>
    obtain ⟨k', id'⟩ := p
    rw [List.map_cons, List.nodup_cons] at hn
    by_cases hk : k = k'
    · subst hk
      simp only [List.lookup_cons_self, Option.some.injEq, List.mem_cons, Prod.mk.injEq, true_and]
      refine ⟨fun h => Or.inl h.symm, fun h => h.elim Eq.symm fun h => ?_⟩
      exact absurd (List.mem_map_of_mem (f := Prod.fst) h) hn.1
    · rw [List.lookup_cons, beq_eq_false_iff_ne.2 hk]
      simp [hk, ih hn.2]

theorem names_bySubject {requests : FinMap Key RequestRecord} {subjects : List (Key × Key)}
    (h : bySubject requests = .ok subjects) (hn : (subjects.map (·.1)).Nodup) :
    Names subjects requests := by
  intro s id
  rw [lookup_eq_some_iff_mem hn]
  rw [bySubject_eq_ok] at h
  have hmem : (Key.str s, id) ∈ subjects ↔
      (some (Key.str s), id) ∈ subjects.map fun p => (some p.1, p.2) := by
    simp [List.mem_map, Prod.ext_iff]
  rw [hmem, ← h, List.mem_map]
  constructor
  · rintro ⟨⟨id', row⟩, hrow, heq⟩
    simp only [Prod.mk.injEq, keyOf_eq_str] at heq
    obtain ⟨hs, rfl⟩ := heq
    exact ⟨row, FinMap.mem_entries.1 hrow, hs⟩
  · rintro ⟨row, hrow, hs⟩
    exact ⟨(id, row), FinMap.mem_entries.2 hrow, by simp [hs]⟩

/-! ## The second loop -/

/-- A request once a response stream has been read. -/
def RequestRecord.settle (C : DecodeCodecs) (row : RequestRecord)
    (response : String × List Frame × Capture) : RequestRecord :=
  if row.responseSubject = .str response.1 then
    match readResponse C row.kind row.payloadCodec response.2.1 with
    | .ok state => row.answer state response.2.2
    | .error _ => row
  else row

/-- The parts of a request that no response changes. -/
theorem RequestRecord.settle_frame (row : RequestRecord) (response : String × List Frame × Capture) :
    (row.settle C response).requestId = row.requestId ∧
    (row.settle C response).responseSubject = row.responseSubject ∧
    (row.settle C response).kind = row.kind ∧
    (row.settle C response).payloadCodec = row.payloadCodec := by
  unfold RequestRecord.settle
  split
  · split <;> exact ⟨rfl, rfl, rfl, rfl⟩
  · exact ⟨rfl, rfl, rfl, rfl⟩

theorem RequestRecord.settle_of_ne {row : RequestRecord} {response : String × List Frame × Capture}
    (h : row.responseSubject ≠ .str response.1) : row.settle C response = row := if_neg h

theorem RequestRecord.settle_of_eq {row : RequestRecord} {response : String × List Frame × Capture}
    {state : Progress} (h : row.responseSubject = .str response.1)
    (hread : readResponse C row.kind row.payloadCodec response.2.1 = .ok state) :
    row.settle C response = row.answer state response.2.2 := by
  rw [RequestRecord.settle, if_pos h, hread]

/-- The response can be matched: a request has its subject and it is complete. -/
def Matches (C : DecodeCodecs) (requests : FinMap Key RequestRecord)
    (response : String × List Frame × Capture) : Prop :=
  ∃ id row, requests.get? id = some row ∧ row.responseSubject = .str response.1 ∧
    ∃ state, readResponse C row.kind row.payloadCodec response.2.1 = .ok state

theorem names_settle {subjects : List (Key × Key)} {requests : FinMap Key RequestRecord}
    (h : Names subjects requests) (response : String × List Frame × Capture) :
    Names subjects (requests.mapVals fun row => row.settle C response) := by
  intro s id
  rw [h s id, FinMap.get?_mapVals]
  constructor
  · rintro ⟨row, hrow, hs⟩
    exact ⟨row.settle C response, by rw [hrow]; rfl, by rw [(row.settle_frame response).2.1, hs]⟩
  · rintro ⟨row', hrow', hs⟩
    obtain ⟨row, hrow, rfl⟩ := Option.map_eq_some_iff.1 hrow'
    exact ⟨row, hrow, by rw [← hs, (row.settle_frame response).2.1]⟩

theorem matches_settle {requests : FinMap Key RequestRecord}
    {response response' : String × List Frame × Capture} :
    Matches C (requests.mapVals fun row => row.settle C response) response' ↔
      Matches C requests response' := by
  unfold Matches
  simp only [FinMap.get?_mapVals, Option.map_eq_some_iff]
  constructor
  · rintro ⟨id, _, ⟨row, hrow, rfl⟩, hs, hread⟩
    obtain ⟨-, hsubject, hkind, hcodec⟩ := row.settle_frame (C := C) response
    exact ⟨id, row, hrow, by rw [← hs, hsubject], by rwa [hkind, hcodec] at hread⟩
  · rintro ⟨id, row, hrow, hs, hread⟩
    obtain ⟨-, hsubject, hkind, hcodec⟩ := row.settle_frame (C := C) response
    exact ⟨id, _, ⟨row, hrow, rfl⟩, by rw [hsubject, hs], by rwa [hkind, hcodec]⟩

/-- Answering the one request that has the subject settles every request. -/
theorem insert_answer {subjects : List (Key × Key)} {requests : FinMap Key RequestRecord}
    (hnames : Names subjects requests) {response : String × List Frame × Capture} {id : Key}
    {row : RequestRecord} {state : Progress} (hrow : requests.get? id = some row)
    (hs : row.responseSubject = .str response.1)
    (hread : readResponse C row.kind row.payloadCodec response.2.1 = .ok state) :
    requests.insert id (row.answer state response.2.2) =
      requests.mapVals fun row => row.settle C response := by
  apply FinMap.ext
  rw [FinMap.entries_insert_of_some hrow, FinMap.mapVals]
  refine List.map_congr_left fun e he => ?_
  obtain ⟨id', row'⟩ := e
  have hget := FinMap.mem_entries.1 he
  by_cases hid : id' = id
  · subst hid
    rw [hrow, Option.some.injEq] at hget
    subst hget
    rw [if_pos rfl, RequestRecord.settle_of_eq hs hread]
  · have hne : row'.responseSubject ≠ .str response.1 := fun hs' => by
      have h₁ := (hnames _ _).2 ⟨row, hrow, hs⟩
      have h₂ := (hnames _ _).2 ⟨row', hget, hs'⟩
      rw [h₁, Option.some.injEq] at h₂
      exact hid h₂.symm
    rw [if_neg hid, RequestRecord.settle_of_ne hne]

theorem matchResponse_eq_ok {subjects : List (Key × Key)} {requests m' : FinMap Key RequestRecord}
    {seen seen' : List String} (hnames : Names subjects requests)
    {response : String × List Frame × Capture} :
    matchResponse C subjects (requests, seen) response = .ok (m', seen') ↔
      response.1 ∉ seen ∧ Matches C requests response ∧
        m' = (requests.mapVals fun row => row.settle C response) ∧ seen' = seen ++ [response.1] := by
  unfold matchResponse
  constructor
  · intro h
    split at h
    · cases h
    · rename_i id hid
      split at h
      · cases h
      · rename_i hseen
        obtain ⟨row, hrow, hs⟩ := (hnames _ _).1 hid
        rw [hrow] at h
        obtain ⟨state, hread, h⟩ := Except.bind_eq_ok_iff.1 h
        cases h
        exact ⟨hseen, ⟨id, row, hrow, hs, state, hread⟩, insert_answer hnames hrow hs hread, rfl⟩
  · rintro ⟨hseen, ⟨id, row, hrow, hs, state, hread⟩, rfl, rfl⟩
    rw [(hnames _ _).2 ⟨row, hrow, hs⟩]
    simp only [if_neg hseen, hrow]
    refine Except.bind_eq_ok_iff.2 ⟨state, hread, ?_⟩
    rw [insert_answer hnames hrow hs hread]
    rfl

/-- A request once all response streams have been read. -/
def RequestRecord.settleAll (C : DecodeCodecs) (responses : List (String × List Frame × Capture))
    (row : RequestRecord) : RequestRecord :=
  responses.foldl (RequestRecord.settle C) row

/-- The second loop succeeds exactly if every response can be matched and no subject comes
twice. -/
theorem foldlM_matchResponse {subjects : List (Key × Key)} :
    ∀ {responses : List (String × List Frame × Capture)} {requests m' : FinMap Key RequestRecord}
      {seen seen' : List String}, Names subjects requests → seen.Nodup →
      (responses.foldlM (matchResponse C subjects) (requests, seen) = .ok (m', seen') ↔
        (seen ++ responses.map (·.1)).Nodup ∧ (∀ response ∈ responses, Matches C requests response) ∧
          m' = requests.mapVals (·.settleAll C responses) ∧ seen' = seen ++ responses.map (·.1))
  | [], requests, m', seen, seen', _, hseen => by
    have hid : requests.mapVals (·.settleAll C []) = requests :=
      FinMap.ext (List.map_id requests.entries)
    simp only [List.foldlM_nil, pure, Except.pure, Except.ok.injEq, Prod.mk.injEq, List.map_nil,
      List.append_nil, hid, List.not_mem_nil, false_implies, implies_true, true_and, hseen]
    exact and_congr eq_comm eq_comm
  | response :: responses, requests, m', seen, seen', hnames, hseen => by
    rw [List.foldlM_cons, Except.bind_eq_ok_iff]
    have hassoc : seen ++ (response :: responses).map (·.1) =
        (seen ++ [response.1]) ++ responses.map (·.1) := by simp
    have hvals : (requests.mapVals fun row => row.settle C response).mapVals (·.settleAll C responses) =
        requests.mapVals (·.settleAll C (response :: responses)) := by
      apply FinMap.ext
      simp [FinMap.mapVals, RequestRecord.settleAll]
    rw [hassoc, List.forall_mem_cons]
    constructor
    · rintro ⟨⟨m₁, seen₁⟩, hstep, hfold⟩
      obtain ⟨hnew, hmatch, rfl, rfl⟩ := (matchResponse_eq_ok hnames).1 hstep
      have hseen₁ : (seen ++ [response.1]).Nodup :=
        List.nodup_append.2 ⟨hseen, by simp, fun a ha b hb hab => by
          rw [List.mem_singleton] at hb
          exact hnew (hb ▸ hab ▸ ha)⟩
      obtain ⟨hn, hall, rfl, rfl⟩ :=
        (foldlM_matchResponse (names_settle hnames response) hseen₁).1 hfold
      exact ⟨hn, ⟨hmatch, fun r hr => matches_settle.1 (hall r hr)⟩, hvals, rfl⟩
    · rintro ⟨hn, ⟨hmatch, hall⟩, rfl, rfl⟩
      have hseen₁ := (List.nodup_append.1 hn).1
      have hnew : response.1 ∉ seen := fun h =>
        (List.nodup_append.1 hseen₁).2.2 _ h _ (List.mem_singleton_self _) rfl
      refine ⟨_, (matchResponse_eq_ok hnames).2 ⟨hnew, hmatch, rfl, rfl⟩,
        (foldlM_matchResponse (names_settle hnames response) hseen₁).2
          ⟨hn, fun r hr => matches_settle.2 (hall r hr), hvals.symm, rfl⟩⟩

/-! ## The whole decoder -/

theorem RequestRecord.settleAll_frame : ∀ (responses : List (String × List Frame × Capture))
    (row : RequestRecord), (row.settleAll C responses).requestId = row.requestId ∧
      (row.settleAll C responses).responseSubject = row.responseSubject ∧
      (row.settleAll C responses).kind = row.kind
  | [], _ => ⟨rfl, rfl, rfl⟩
  | response :: responses, row => by
    obtain ⟨hid, hsubject, hkind, -⟩ := row.settle_frame (C := C) response
    obtain ⟨hid', hsubject', hkind'⟩ := settleAll_frame responses (row.settle C response)
    exact ⟨hid'.trans hid, hsubject'.trans hsubject, hkind'.trans hkind⟩

theorem RequestRecord.settleAll_unmatched : ∀ {responses : List (String × List Frame × Capture)}
    {row : RequestRecord}, (∀ response ∈ responses, row.responseSubject ≠ .str response.1) →
      row.settleAll C responses = row
  | [], _, _ => rfl
  | response :: responses, row, h => by
    rw [List.forall_mem_cons] at h
    rw [settleAll, List.foldl_cons, settle_of_ne h.1]
    exact settleAll_unmatched h.2

/-- A request is answered by the one response with its subject. -/
theorem RequestRecord.settleAll_matched {response : String × List Frame × Capture}
    {state : Progress} : ∀ {responses : List (String × List Frame × Capture)} {row : RequestRecord},
    (responses.map (·.1)).Nodup → response ∈ responses → row.responseSubject = .str response.1 →
      readResponse C row.kind row.payloadCodec response.2.1 = .ok state →
      row.settleAll C responses = row.answer state response.2.2
  | [], _, _, hmem, _, _ => by cases hmem
  | first :: responses, row, hn, hmem, hs, hread => by
    rw [List.map_cons, List.nodup_cons] at hn
    rw [settleAll, List.foldl_cons]
    rcases List.mem_cons.1 hmem with rfl | hmem
    · rw [settle_of_eq hs hread]
      refine settleAll_unmatched fun r hr hs' => hn.1 ?_
      have hs' : row.responseSubject = .str r.1 := hs'
      rw [hs, Value.str.injEq] at hs'
      exact hs' ▸ List.mem_map_of_mem hr
    · rw [settle_of_ne fun hs' => ?_]
      · exact settleAll_matched hn.2 hmem hs hread
      · rw [hs, Value.str.injEq] at hs'
        exact hn.1 (hs' ▸ List.mem_map_of_mem hmem)

theorem answered_iff {row : RequestRecord} {responses : List (String × List Frame × Capture)} :
    (row.responseSubject.asStr?.any ((responses.map (·.1)).contains ·)) = true ↔
      ∃ response ∈ responses, row.responseSubject = .str response.1 := by
  cases row.responseSubject <;> simp [Value.asStr?, eq_comm]

/-- The last guard: there is a model request and every model request is answered. -/
theorem required_iff {requests : FinMap Key RequestRecord}
    {responses : List (String × List Frame × Capture)} {required : List RequestRecord}
    (h : required = ((requests.mapVals (·.settleAll C responses)).entries.map (·.2)).filter
      fun row => decide (row.kind = .model)) :
    ¬ ((required.isEmpty || required.any fun row =>
        !(row.responseSubject.asStr?.any ((responses.map (·.1)).contains ·))) = true) ↔
      (∃ r ∈ requests.entries, r.2.kind = .model) ∧
      ∀ r ∈ requests.entries, r.2.kind = .model →
        ∃ response ∈ responses, r.2.responseSubject = .str response.1 := by
  have hmem : ∀ row, row ∈ required ↔
      ∃ r ∈ requests.entries, r.2.kind = .model ∧ r.2.settleAll C responses = row := by
    intro row
    rw [h, List.mem_filter, FinMap.mapVals, List.map_map, List.mem_map, decide_eq_true_eq]
    constructor
    · rintro ⟨⟨r, hr, rfl⟩, hkind⟩
      exact ⟨r, hr, (r.2.settleAll_frame (C := C) responses).2.2 ▸ hkind, rfl⟩
    · rintro ⟨r, hr, hkind, rfl⟩
      exact ⟨⟨r, hr, rfl⟩, (r.2.settleAll_frame (C := C) responses).2.2.trans hkind⟩
  rw [Bool.or_eq_true, not_or, List.isEmpty_iff, List.any_eq_true]
  refine and_congr ⟨fun hne => ?_, ?_⟩ ⟨fun hall r hr hkind => ?_, fun hall => ?_⟩
  · obtain ⟨row, hrow⟩ := List.exists_mem_of_ne_nil _ hne
    obtain ⟨r, hr, hkind, -⟩ := (hmem row).1 hrow
    exact ⟨r, hr, hkind⟩
  · rintro ⟨r, hr, hkind⟩
    exact List.ne_nil_of_mem ((hmem _).2 ⟨r, hr, hkind, rfl⟩)
  · have hsubject := (r.2.settleAll_frame (C := C) responses).2.1
    by_contra hnone
    refine hall ⟨_, (hmem _).2 ⟨r, hr, hkind, rfl⟩, ?_⟩
    rw [Bool.not_eq_true', ← Bool.not_eq_true, answered_iff, hsubject]
    exact hnone
  · rintro ⟨row, hrow, hno⟩
    obtain ⟨r, hr, hkind, rfl⟩ := (hmem row).1 hrow
    rw [Bool.not_eq_true', ← Bool.not_eq_true, answered_iff,
      (r.2.settleAll_frame (C := C) responses).2.1] at hno
    exact hno (hall r hr hkind)

/-- The conditions under which a capture is decoded. -/
theorem decode_eq_ok {streams : List Stream} {report : Report} :
    decode C streams = .ok report ↔ ∃ collected subjects,
      streams.foldlM (Collected.add C) .empty = .ok collected ∧
      bySubject collected.requests = .ok subjects ∧ (subjects.map (·.1)).Nodup ∧
      (collected.responseStreams.map (·.1)).Nodup ∧
      (∀ response ∈ collected.responseStreams, Matches C collected.requests response) ∧
      (∃ r ∈ collected.requests.entries, r.2.kind = .model) ∧
      (∀ r ∈ collected.requests.entries, r.2.kind = .model →
        ∃ response ∈ collected.responseStreams, r.2.responseSubject = .str response.1) ∧
      report = {
        requests := (collected.requests.entries.map fun r =>
          (r.2.settleAll C collected.responseStreams).unanswered
            (collected.responseStreams.map (·.1))).insertionSort
          fun a b => a.capture.firstTimestampNs ≤ b.capture.firstTimestampNs
        dataStreams := streams.length
        transportAcknowledgements := collected.acknowledgements
        controls := collected.controls } := by
  unfold decode
  simp only [Except.bind_eq_ok_iff, Except.failIf_eq_ok, exists_const, pure, Except.pure,
    Except.ok.injEq]
  constructor
  · rintro ⟨collected, hfold, subjects, hsubjects, hn, ⟨m', seen'⟩, hmatch, hrequired, rfl⟩
    simp only [Bool.not_eq_true', decide_eq_false_iff_not, Classical.not_not] at hn
    obtain ⟨hresponses, hall, rfl, rfl⟩ :=
      (foldlM_matchResponse (names_bySubject hsubjects hn) List.nodup_nil).1 hmatch
    rw [List.nil_append] at hresponses hrequired
    obtain ⟨hmodel, hanswered⟩ := (required_iff rfl).1 hrequired
    refine ⟨collected, subjects, hfold, hsubjects, hn, hresponses, hall, hmodel, hanswered, ?_⟩
    simp only [FinMap.mapVals, List.map_map, List.nil_append]
    rfl
  · rintro ⟨collected, subjects, hfold, hsubjects, hn, hresponses, hall, hmodel, hanswered, rfl⟩
    have hmatch := (foldlM_matchResponse (names_bySubject hsubjects hn) List.nodup_nil).2 ⟨by rwa [List.nil_append], hall, rfl, rfl⟩
    rw [List.nil_append] at hmatch
    refine ⟨collected, hfold, subjects, hsubjects, by simpa using hn, _, hmatch,
      (required_iff rfl).2 ⟨hmodel, hanswered⟩, ?_⟩
    simp only [FinMap.mapVals, List.map_map]
    rfl

end ReedCode.WireCapture
