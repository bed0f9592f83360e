import ReedCode.CaptureProxy.Server

/-!
# What a capture records

One handler of the proxy, whatever the others do.

* `Handler.Stepped` — what a handler can do;
* `Logs` — what a step adds to the logs of the proxy is what its handler keeps of them;
* `Recorded`, `Told`, `Ends` — what the metadata of a capture, its folder, the server upstream and
  the client have to do with each other;
* `Good` — the invariant of a handler, phase by phase, and `Good.step`.
-/

set_option autoImplicit false

namespace ReedCode.CaptureProxy

/-! ## Steps -/

/-- The handler waits for a client or for the server upstream. -/
inductive Waits (c : Capture) : Phase → Prop
  | rejecting {status : Nat} {message : String} : Waits c (.rejecting c status message)
  | reading : Waits c (.reading c)
  | awaiting : Waits c (.awaiting c)

/-- **What a handler can do.** -/
inductive Handler.Stepped (C : Settings) (s : Server) (h : Handler) : Server × Handler → Prop
  | register {inference : Bool} (hphase : h.phase = .accepted)
      (hinference : inferenceRequest C h.request.method h.request.path = some inference) :
      Stepped C s h ({ s with active := s.active ++ [h.id] }, { h with phase := .active inference })
  | crash (hphase : h.phase = .accepted)
      (hinference : inferenceRequest C h.request.method h.request.path = none) :
      Stepped C s h ({ s with active := s.active ++ [h.id] }, { h with phase := .crashed none })
  | number {inference : Bool} (now : Rat) (hphase : h.phase = .active inference) :
      Stepped C s h ((s.admission C h.id inference now).1,
        { h with phase := .numbered (s.admission C h.id inference now).2 })
  | begin {a : Admission} (uuid : String) (hphase : h.phase = .numbered a) :
      Stepped C s h (h.begin C s a uuid)
  | rejected {c : Capture} {status : Nat} {message : String}
      (hphase : h.phase = .rejecting c status message) :
      Stepped C s h (h.present s (.reply status message) (.ending c))
  | failed {c : Capture} (error : String) (hwaits : Waits c h.phase) :
      Stepped C s h (s, { h with phase := .failing (c.fail error) })
  | read {c : Capture} (hphase : h.phase = .reading c) : Stepped C s h (h.readBody C s c)
  | forwarded {c : Capture} {bytes : Bytes} (sending : Sending)
      (hphase : h.phase = .sending c bytes) : Stepped C s h (h.sendBody C s c bytes sending)
  | responded {c : Capture} (status : Nat) (reason : String) (headers : Headers)
      (failure : Option String) (hphase : h.phase = .awaiting c) :
      Stepped C s h (h.respond s c status reason headers failure)
  | relayed {c : Capture} (bytes : Bytes) (cut : Option (Nat × String))
      (hphase : h.phase = .relaying c) : Stepped C s h (h.relay s c bytes cut)
  | broken {c : Capture} (error : String) (hphase : h.phase = .relaying c) :
      Stepped C s h (s, { h with phase := .ending (c.fail error) })
  | settled {c : Capture} (length : Option Nat) (hphase : h.phase = .relaying c) :
      Stepped C s h (h.settle s c length)
  | apologised {c : Capture} (hphase : h.phase = .failing c) :
      Stepped C s h (h.present s (.reply 502 "upstream or capture failure") (.ending c))
  | silent {c : Capture} (hphase : h.phase = .failing c) :
      Stepped C s h (s, { h with phase := .ending c })
  | closed {c : Capture} (hphase : h.phase = .ending c) : Stepped C s h (h.close C s c)

variable {C : Settings} {s s' : Server} {h h' : Handler}

theorem own_stepped {action : Act} (hown : h.own C s action = some (s', h')) :
    h.Stepped C s (s', h') := by
  cases action with
  | register =>
    simp only [Handler.own] at hown
    split at hown
    · rename_i hphase
      cases hinference : inferenceRequest C h.request.method h.request.path with
      | none =>
        rw [hinference] at hown
        cases hown
        exact .crash hphase hinference
      | some inference =>
        rw [hinference] at hown
        cases hown
        exact .register hphase hinference
    · cases hown
  | number now =>
    simp only [Handler.own] at hown
    split at hown
    · cases hown
      exact .number now ‹_›
    · cases hown
  | mkdir uuid =>
    simp only [Handler.own] at hown
    split at hown
    · rw [Option.some.injEq] at hown
      exact hown ▸ .begin uuid ‹_›
    · cases hown
  | rejected failure =>
    simp only [Handler.own] at hown
    split at hown
    · rename_i hphase
      cases failure with
      | none =>
        cases hown
        exact .rejected hphase
      | some error =>
        cases hown
        exact .failed error (hphase ▸ .rejecting)
    · cases hown
  | read failure =>
    simp only [Handler.own] at hown
    split at hown
    · rename_i hphase
      cases failure with
      | none =>
        rw [Option.some.injEq] at hown
        exact hown ▸ .read hphase
      | some error =>
        cases hown
        exact .failed error (hphase ▸ .reading)
    · cases hown
  | forwarded sending =>
    simp only [Handler.own] at hown
    split at hown
    · rw [Option.some.injEq] at hown
      exact hown ▸ .forwarded sending ‹_›
    · cases hown
  | responded status reason headers failure =>
    simp only [Handler.own] at hown
    split at hown
    · rw [Option.some.injEq] at hown
      exact hown ▸ .responded status reason headers failure ‹_›
    · cases hown
  | chunk bytes now cut =>
    simp only [Handler.own] at hown
    split at hown
    · split at hown
      · rw [Option.some.injEq] at hown
        exact hown ▸ .relayed bytes cut ‹_›
      · cases hown
    · cases hown
  | late now =>
    simp only [Handler.own] at hown
    split at hown
    · split at hown
      · cases hown
        exact .broken _ ‹_›
      · cases hown
    · cases hown
  | ended length =>
    simp only [Handler.own] at hown
    split at hown
    · rw [Option.some.injEq] at hown
      exact hown ▸ .settled length ‹_›
    · cases hown
  | failed error =>
    simp only [Handler.own] at hown
    split at hown
    · rename_i hphase
      cases hown
      exact .failed error (hphase ▸ .awaiting)
    · cases hown
      exact .broken error ‹_›
    · cases hown
  | apologised sent =>
    simp only [Handler.own] at hown
    split at hown
    · rename_i hphase
      cases sent with
      | true =>
        cases hown
        exact .apologised hphase
      | false =>
        cases hown
        exact .silent hphase
    · cases hown
  | close =>
    simp only [Handler.own] at hown
    split at hown
    · rw [Option.some.injEq] at hown
      exact hown ▸ .closed ‹_›
    · cases hown

/-! ## Logs -/

/-- **What a step adds** to the logs of the proxy is what its handler keeps of them. -/
structure Logs (s s' : Server) (h h' : Handler) : Prop where
  id : h'.id = h.id
  request : h'.request = h.request
  disk : ∃ writes, s'.disk = s.disk ++ writes.map (h.id, ·) ∧ h'.written = h.written ++ writes
  upstream : ∃ sent, s'.upstream = s.upstream ++ sent.map (h.id, ·) ∧ h'.sent = h.sent ++ sent
  client : ∃ shown, s'.client = s.client ++ shown.map (h.id, ·) ∧ h'.shown = h.shown ++ shown
  accepted : s'.accepted = s.accepted
  cancelled : s'.cancelled = s.cancelled

theorem Logs.phase (s : Server) (h : Handler) (phase : Phase) : Logs s s h { h with phase } := by
  refine ⟨rfl, rfl, ⟨[], ?_, ?_⟩, ⟨[], ?_, ?_⟩, ⟨[], ?_, ?_⟩, rfl, rfl⟩ <;>
    simp only [List.map_nil, List.append_nil]

theorem Logs.write (s : Server) (h : Handler) (folder : List Char) (content : Content)
    (phase : Phase) :
    Logs s (h.write s folder content phase).1 h (h.write s folder content phase).2 := by
  refine ⟨rfl, rfl, ⟨[⟨folder, content⟩], rfl, rfl⟩, ⟨[], ?_, ?_⟩, ⟨[], ?_, ?_⟩, rfl, rfl⟩ <;>
    simp only [Handler.write, List.map_nil, List.append_nil]

theorem Logs.send (s : Server) (h : Handler) (message : Forwarded) (phase : Phase) :
    Logs s (h.send s message phase).1 h (h.send s message phase).2 := by
  refine ⟨rfl, rfl, ⟨[], ?_, ?_⟩, ⟨[message], rfl, rfl⟩, ⟨[], ?_, ?_⟩, rfl, rfl⟩ <;>
    simp only [Handler.send, List.map_nil, List.append_nil]

theorem Logs.present (s : Server) (h : Handler) (shown : Shown) (phase : Phase) :
    Logs s (h.present s shown phase).1 h (h.present s shown phase).2 := by
  refine ⟨rfl, rfl, ⟨[], ?_, ?_⟩, ⟨[], ?_, ?_⟩, ⟨[shown], rfl, rfl⟩, rfl, rfl⟩ <;>
    simp only [Handler.present, List.map_nil, List.append_nil]

theorem Logs.trans {s₁ s₂ s₃ : Server} {h₁ h₂ h₃ : Handler} (h : Logs s₁ s₂ h₁ h₂)
    (h' : Logs s₂ s₃ h₂ h₃) : Logs s₁ s₃ h₁ h₃ := by
  obtain ⟨writes, hdisk, hwritten⟩ := h.disk
  obtain ⟨writes', hdisk', hwritten'⟩ := h'.disk
  obtain ⟨sent, hupstream, hsent⟩ := h.upstream
  obtain ⟨sent', hupstream', hsent'⟩ := h'.upstream
  obtain ⟨shown, hclient, hshown⟩ := h.client
  obtain ⟨shown', hclient', hshown'⟩ := h'.client
  rw [h.id] at hdisk' hupstream' hclient'
  refine ⟨h'.id.trans h.id, h'.request.trans h.request, ⟨writes ++ writes', ?_, ?_⟩,
    ⟨sent ++ sent', ?_, ?_⟩, ⟨shown ++ shown', ?_, ?_⟩, h'.accepted.trans h.accepted,
    h'.cancelled.trans h.cancelled⟩
  · rw [hdisk', hdisk, List.map_append, List.append_assoc]
  · rw [hwritten', hwritten, List.append_assoc]
  · rw [hupstream', hupstream, List.map_append, List.append_assoc]
  · rw [hsent', hsent, List.append_assoc]
  · rw [hclient', hclient, List.map_append, List.append_assoc]
  · rw [hshown', hshown, List.append_assoc]

/-- What else a step does to the server. -/
theorem Logs.server {s s₁ s₂ : Server} {h h' : Handler} (hlogs : Logs s s₁ h h')
    (hdisk : s₂.disk = s₁.disk) (hupstream : s₂.upstream = s₁.upstream)
    (hclient : s₂.client = s₁.client) (haccepted : s₂.accepted = s₁.accepted)
    (hcancelled : s₂.cancelled = s₁.cancelled) : Logs s s₂ h h' :=
  ⟨hlogs.id, hlogs.request, hdisk ▸ hlogs.disk, hupstream ▸ hlogs.upstream,
    hclient ▸ hlogs.client, haccepted ▸ hlogs.accepted, hcancelled ▸ hlogs.cancelled⟩

theorem begin_logs (s : Server) (h : Handler) (a : Admission) (uuid : String) :
    Logs s (h.begin C s a uuid).1 h (h.begin C s a uuid).2 := by
  unfold Handler.begin
  split
  · exact .phase s h _
  · exact .write s h _ _ _

theorem respond_logs (s : Server) (h : Handler) (c : Capture) (status : Nat) (reason : String)
    (headers : Headers) (failure : Option String) :
    Logs s (h.respond s c status reason headers failure).1 h
      (h.respond s c status reason headers failure).2 := by
  cases failure with
  | none => exact (Logs.present s h _ _).trans (.write _ _ _ _ _)
  | some error => exact .phase s h _

theorem relay_logs (s : Server) (h : Handler) (c : Capture) (bytes : Bytes)
    (cut : Option (Nat × String)) :
    Logs s (h.relay s c bytes cut).1 h (h.relay s c bytes cut).2 := by
  cases cut with
  | none => exact (Logs.write s h _ _ _).trans (.present _ _ _ _)
  | some cut => exact (Logs.write s h _ _ _).trans (.present _ _ _ _)

theorem Handler.Stepped.logs {r : Server × Handler} (hstep : h.Stepped C s r) :
    Logs s r.1 h r.2 := by
  cases hstep with
  | register => exact (Logs.phase s h _).server rfl rfl rfl rfl rfl
  | crash => exact (Logs.phase s h _).server rfl rfl rfl rfl rfl
  | number => exact (Logs.phase s h _).server rfl rfl rfl rfl rfl
  | begin uuid => exact begin_logs s h _ uuid
  | rejected => exact .present s h _ _
  | failed => exact .phase s h _
  | read =>
    unfold Handler.readBody
    split
    · exact .phase s h _
    · exact .write s h _ _ _
  | forwarded sending =>
    cases sending with
    | whole => exact .send s h _ _
    | part error => exact .send s h _ _
    | nothing error => exact .phase s h _
  | responded status reason headers failure =>
    exact respond_logs s h _ status reason headers failure
  | relayed bytes cut => exact relay_logs s h _ bytes cut
  | broken => exact .phase s h _
  | settled => exact .phase s h _
  | apologised => exact .present s h _ _
  | silent => exact .phase s h _
  | closed => exact (Logs.write s h _ _ _).server rfl rfl rfl rfl rfl

/-- Only `admit` touches the counters. -/
def Counters (s s' : Server) : Prop :=
  s'.sequence = s.sequence ∧ s'.calls = s.calls ∧ s'.firstInference = s.firstInference ∧
    s'.admissions = s.admissions

theorem Handler.Stepped.counters {r : Server × Handler} (hstep : h.Stepped C s r) :
    (∃ inference now, h.phase = .active inference ∧
      r = ((s.admission C h.id inference now).1,
        { h with phase := .numbered (s.admission C h.id inference now).2 })) ∨
      Counters s r.1 := by
  cases hstep with
  | number now hphase => exact .inl ⟨_, now, hphase, rfl⟩
  | begin uuid =>
    refine .inr ?_
    unfold Handler.begin
    split <;> exact ⟨rfl, rfl, rfl, rfl⟩
  | read =>
    refine .inr ?_
    unfold Handler.readBody
    split <;> exact ⟨rfl, rfl, rfl, rfl⟩
  | forwarded sending => cases sending <;> exact .inr ⟨rfl, rfl, rfl, rfl⟩
  | responded _ _ _ failure => cases failure <;> exact .inr ⟨rfl, rfl, rfl, rfl⟩
  | relayed _ cut => cases cut <;> exact .inr ⟨rfl, rfl, rfl, rfl⟩
  | _ => exact .inr ⟨rfl, rfl, rfl, rfl⟩

/-! ## The invariant of a handler -/

/-- What the folder of a capture has in it, but for the metadata. -/
def Capture.contents (c : Capture) : List Content :=
  .mkdir :: (c.body.map Content.requestBody).toList ++
    match c.pieces with
    | none => []
    | some pieces => .responseFile :: pieces.map .responseBody

/-- What the metadata of a capture says of the request and of the response; `more` is what is
written behind the contents. -/
structure Recorded (C : Settings) (h : Handler) (c : Capture) (more : List Content) : Prop where
  heading : ∃ uuid, c.metadata.heading = .of C c.admission h.request uuid
  written : h.written = (c.contents ++ more).map (Write.mk c.folder)
  read : ∀ bytes, c.body = some bytes → c.admission.allowed = true ∧
    h.request.forbiddenAuth = false ∧ ∃ rest, body h.request.framing = .ok (bytes, rest)
  request : c.metadata.requestSha256 = c.body.map C.sha256 ∧
    c.metadata.requestBytes = c.body.map List.length
  chunks : c.metadata.chunks = (c.pieces.getD []).map List.length
  sent : h.sent = [] ∨ ∃ bytes whole, c.body = some bytes ∧
    h.sent = [c.message C h.request bytes whole]

/-- What a client is shown, against the status and the pieces of the response: a reply of the
proxy, or the head and every piece, the last of them perhaps cut. -/
inductive Told (status : Option Nat) : Option (List Bytes) → List Shown → Prop
  | silent : Told status none []
  | reply {code : Nat} {message : String} : Told status none [.reply code message]
  | whole {code : Nat} {reason : String} {headers : Headers} {pieces : List Bytes}
      (hstatus : status = some code) :
      Told status (some pieces) (.head code reason headers :: pieces.map .chunk)
  | cut {code : Nat} {reason : String} {headers : Headers} {pieces : List Bytes} {last : Bytes}
      {got : Nat} (hstatus : status = some code) :
      Told status (some (pieces ++ [last]))
        (.head code reason headers :: pieces.map .chunk ++ [.chunk (last.take got)])

/-- A response that is complete: all of it came, and all of it went on. -/
structure Through (C : Settings) (h : Handler) (c : Capture) : Prop where
  request : ∃ bytes, c.body = some bytes ∧ h.sent = [c.message C h.request bytes true]
  response : ∃ pieces code reason headers, c.pieces = some pieces ∧
    c.metadata.responseStatus = some code ∧
      h.shown = .head code reason headers :: pieces.map .chunk

/-- How a capture ends. -/
structure Ends (C : Settings) (h : Handler) (c : Capture) : Prop where
  error : c.metadata.complete = true ↔ c.metadata.error = none
  told : Told c.metadata.responseStatus c.pieces h.shown
  complete : c.metadata.complete = true → Through C h c

structure Blank (h : Handler) : Prop where
  written : h.written = []
  sent : h.sent = []
  shown : h.shown = []

/-- The admission of a handler. -/
structure Own (C : Settings) (s : Server) (h : Handler) (a : Admission) : Prop where
  listed : a ∈ s.admissions
  handler : a.handler = h.id
  inference : inferenceRequest C h.request.method h.request.path = some a.inference

/-- A capture that goes on. -/
structure Running (C : Settings) (s : Server) (h : Handler) (c : Capture) : Prop where
  own : Own C s h c.admission
  recorded : Recorded C h c []
  incomplete : c.metadata.complete = false

/-- **The invariant of a handler**, phase by phase. -/
inductive Good (C : Settings) (s : Server) (h : Handler) : Phase → Prop
  | accepted (hblank : Blank h) : Good C s h .accepted
  | active {inference : Bool} (hblank : Blank h)
      (hinference : inferenceRequest C h.request.method h.request.path = some inference) :
      Good C s h (.active inference)
  | numbered {a : Admission} (hblank : Blank h) (hown : Own C s h a) : Good C s h (.numbered a)
  | rejecting {c : Capture} {status : Nat} {message : String} (hrun : Running C s h c)
      (hpieces : c.pieces = none) (hshown : h.shown = []) (herror : c.metadata.error ≠ none) :
      Good C s h (.rejecting c status message)
  | reading {c : Capture} (hrun : Running C s h c) (hbody : c.body = none)
      (hpieces : c.pieces = none) (hshown : h.shown = []) (herror : c.metadata.error = none)
      (hallowed : c.admission.allowed = true) (hauth : h.request.forbiddenAuth = false) :
      Good C s h (.reading c)
  | sending {c : Capture} {bytes : Bytes} (hrun : Running C s h c) (hbody : c.body = some bytes)
      (hsent : h.sent = []) (hpieces : c.pieces = none) (hshown : h.shown = [])
      (herror : c.metadata.error = none) : Good C s h (.sending c bytes)
  | awaiting {c : Capture} {bytes : Bytes} (hrun : Running C s h c) (hbody : c.body = some bytes)
      (hsent : h.sent = [c.message C h.request bytes true]) (hpieces : c.pieces = none)
      (hshown : h.shown = []) (herror : c.metadata.error = none) : Good C s h (.awaiting c)
  | relaying {c : Capture} (hrun : Running C s h c) (hthrough : Through C h c)
      (herror : c.metadata.error = none) : Good C s h (.relaying c)
  | failing {c : Capture} (hrun : Running C s h c) (hpieces : c.pieces = none)
      (hshown : h.shown = []) (herror : c.metadata.error ≠ none) : Good C s h (.failing c)
  | ending {c : Capture} (hown : Own C s h c.admission) (hrecorded : Recorded C h c [])
      (hends : Ends C h c) : Good C s h (.ending c)
  | done {c : Capture} (hown : Own C s h c.admission)
      (hrecorded : Recorded C h c [.metadata c.metadata]) (hends : Ends C h c)
      (hresponse : c.metadata.responseSha256 = some (C.sha256 (c.pieces.getD []).flatten) ∧
        c.metadata.responseBytes = some (c.pieces.getD []).flatten.length) : Good C s h (.done c)
  | crashed {a : Option Admission} (hblank : Blank h)
      (ha : ∀ b, a = some b → Own C s h b) : Good C s h (.crashed a)

theorem Own.mono {a : Admission} (h₁ : Own C s h a)
    (hadmissions : s.admissions <+: s'.admissions) (hid : h'.id = h.id)
    (hrequest : h'.request = h.request) : Own C s' h' a :=
  ⟨hadmissions.subset h₁.listed, h₁.handler.trans hid.symm, hrequest ▸ h₁.inference⟩

/-- A capture goes on, and its handler has done nothing that the records are about. -/
theorem Recorded.congr {c : Capture} {more : List Content} (h₁ : Recorded C h c more)
    (hrequest : h'.request = h.request) (hwritten : h'.written = h.written)
    (hsent : h'.sent = h.sent) : Recorded C h' c more :=
  ⟨hrequest ▸ h₁.heading, hwritten.trans h₁.written, hrequest ▸ h₁.read, h₁.request, h₁.chunks,
    by rw [hsent, hrequest]; exact h₁.sent⟩

theorem Recorded.fail {c : Capture} {more : List Content} (h₁ : Recorded C h c more)
    (error : String) : Recorded C h (c.fail error) more :=
  ⟨h₁.heading, h₁.written, h₁.read, h₁.request, h₁.chunks, h₁.sent⟩

theorem Running.fail {c : Capture} (h₁ : Running C s h c) (error : String) :
    Running C s h (c.fail error) :=
  ⟨h₁.own, h₁.recorded.fail error, h₁.incomplete⟩

/-- A handler moves on, and nothing else. -/
theorem Running.moved {c : Capture} (h₁ : Running C s h c) (phase : Phase) :
    Running C s { h with phase } c :=
  ⟨⟨h₁.own.listed, h₁.own.handler, h₁.own.inference⟩, h₁.recorded.congr rfl rfl rfl,
    h₁.incomplete⟩

theorem Told.of_through {c : Capture} (h₁ : Through C h c) :
    Told c.metadata.responseStatus c.pieces h.shown := by
  obtain ⟨pieces, code, reason, headers, hpieces, hstatus, hshown⟩ := h₁.response
  rw [hpieces, hshown]
  exact .whole hstatus

/-- A capture that has gone wrong ends so. -/
theorem Ends.of_error {c : Capture} (hincomplete : c.metadata.complete = false)
    (herror : c.metadata.error ≠ none) (htold : Told c.metadata.responseStatus c.pieces h.shown) :
    Ends C h c := by
  refine ⟨⟨fun h => ?_, fun h => absurd h herror⟩, htold, fun h => ?_⟩
  · rw [hincomplete] at h
    cases h
  · rw [hincomplete] at h
    cases h

/-! ## One lemma for each part of `_handle` -/

theorem begin_good {a : Admission} (uuid : String) (hblank : Blank h) (hown : Own C s h a) :
    Good C (h.begin C s a uuid).1 (h.begin C s a uuid).2 (h.begin C s a uuid).2.phase := by
  unfold Handler.begin
  split
  · exact .crashed ⟨hblank.written, hblank.sent, hblank.shown⟩ fun b hb => by
      cases hb
      exact ⟨hown.listed, hown.handler, hown.inference⟩
  · have hrun : ∀ phase, Running C
        (h.write s (Capture.start C a h.request uuid).folder .mkdir phase).1
        (h.write s (Capture.start C a h.request uuid).folder .mkdir phase).2
        (Capture.start C a h.request uuid) := fun phase => by
      refine ⟨⟨hown.listed, hown.handler, hown.inference⟩, ⟨⟨uuid, rfl⟩, ?_, nofun, ⟨rfl, rfl⟩, rfl,
        .inl hblank.sent⟩, rfl⟩
      have hwritten : (h.write s (Capture.start C a h.request uuid).folder .mkdir phase).2.written =
          h.written ++ [⟨(Capture.start C a h.request uuid).folder, .mkdir⟩] := rfl
      rw [hwritten, hblank.written]
      rfl
    dsimp only [Handler.write]
    split
    · exact .rejecting ((hrun _).fail _) rfl hblank.shown nofun
    · rename_i hauth
      split
      · exact .rejecting ((hrun _).fail _) rfl hblank.shown nofun
      · rename_i hallowed
        rw [Bool.not_eq_true', Bool.not_eq_false] at hallowed
        rw [Bool.not_eq_true] at hauth
        exact .reading (hrun _) rfl rfl hblank.shown rfl hallowed hauth

theorem readBody_good {c : Capture} (hrun : Running C s h c) (hbody : c.body = none)
    (hpieces : c.pieces = none) (hshown : h.shown = []) (herror : c.metadata.error = none)
    (hallowed : c.admission.allowed = true) (hauth : h.request.forbiddenAuth = false) :
    Good C (h.readBody C s c).1 (h.readBody C s c).2 (h.readBody C s c).2.phase := by
  unfold Handler.readBody
  split
  · exact .failing ((hrun.fail _).moved _) hpieces hshown nofun
  · rename_i bytes rest hread
    have hnone : h.sent = [] := by
      rcases hrun.recorded.sent with hsent | ⟨_, _, hsome, -⟩
      · exact hsent
      · rw [hbody] at hsome
        cases hsome
    refine .sending ⟨⟨hrun.own.listed, hrun.own.handler, hrun.own.inference⟩,
      ⟨hrun.recorded.heading, ?_, ?_, ⟨rfl, rfl⟩, hrun.recorded.chunks, .inl hnone⟩,
      hrun.incomplete⟩ rfl hnone hpieces hshown herror
    · have hwritten := hrun.recorded.written
      unfold Capture.contents at hwritten ⊢
      dsimp only [Handler.write]
      rw [hpieces, hbody] at hwritten
      rw [hpieces, hwritten]
      rfl
    · intro b hb
      cases hb
      exact ⟨hallowed, hauth, rest, hread⟩

theorem sendBody_good {c : Capture} {bytes : Bytes} (sending : Sending) (hrun : Running C s h c)
    (hbody : c.body = some bytes) (hsent : h.sent = []) (hpieces : c.pieces = none)
    (hshown : h.shown = []) (herror : c.metadata.error = none) :
    Good C (h.sendBody C s c bytes sending).1 (h.sendBody C s c bytes sending).2
      (h.sendBody C s c bytes sending).2.phase := by
  have hrecorded : ∀ whole phase, Recorded C
      (h.send s (c.message C h.request bytes whole) phase).2 c [] := fun whole phase => by
    refine ⟨hrun.recorded.heading, hrun.recorded.written, hrun.recorded.read,
      hrun.recorded.request, hrun.recorded.chunks, .inr ⟨bytes, whole, hbody, ?_⟩⟩
    dsimp only [Handler.send]
    rw [hsent]
    rfl
  have hown : ∀ whole phase, Own C (h.send s (c.message C h.request bytes whole) phase).1
      (h.send s (c.message C h.request bytes whole) phase).2 c.admission := fun _ _ =>
    ⟨hrun.own.listed, hrun.own.handler, hrun.own.inference⟩
  cases sending with
  | whole =>
    refine .awaiting ⟨hown _ _, hrecorded _ _, hrun.incomplete⟩ hbody ?_ hpieces hshown herror
    dsimp only [Handler.sendBody, Handler.send]
    rw [hsent]
    rfl
  | part error =>
    refine .failing (Running.fail ⟨hown _ _, hrecorded _ _, hrun.incomplete⟩ error) hpieces hshown
      nofun
  | nothing error =>
    exact .failing ((hrun.fail error).moved _) hpieces hshown
      nofun

/-- The status and the headers of a response change nothing of what is recorded so far. -/
theorem Running.answered {c : Capture} (hrun : Running C s h c) (status : Nat)
    (headers : Headers) : Running C s h { c with metadata := { c.metadata with
      responseStatus := some status, responseHeaders := some headers } } :=
  ⟨hrun.own, ⟨hrun.recorded.heading, hrun.recorded.written, hrun.recorded.read,
    hrun.recorded.request, hrun.recorded.chunks, hrun.recorded.sent⟩, hrun.incomplete⟩

theorem respond_good {c : Capture} {bytes : Bytes} (status : Nat) (reason : String)
    (headers : Headers) (failure : Option String) (hrun : Running C s h c)
    (hbody : c.body = some bytes) (hsent : h.sent = [c.message C h.request bytes true])
    (hpieces : c.pieces = none) (hshown : h.shown = []) (herror : c.metadata.error = none) :
    Good C (h.respond s c status reason headers failure).1
      (h.respond s c status reason headers failure).2
      (h.respond s c status reason headers failure).2.phase := by
  have hrun' := hrun.answered status (safeHeaders headers)
  cases failure with
  | some error =>
    exact .failing ((hrun'.fail error).moved _) hpieces hshown
      nofun
  | none =>
    refine .relaying ⟨⟨hrun.own.listed, hrun.own.handler, hrun.own.inference⟩,
      ⟨hrun.recorded.heading, ?_, hrun.recorded.read, hrun.recorded.request, ?_, ?_⟩,
      hrun.incomplete⟩ ⟨⟨bytes, hbody, hsent⟩, [], status, reason, relayedHeaders headers, rfl, rfl,
        ?_⟩ herror
    · have hwritten := hrun.recorded.written
      unfold Capture.contents at hwritten ⊢
      rw [hpieces] at hwritten
      dsimp only [Handler.respond, Handler.write, Handler.present]
      rw [hwritten, List.append_nil, List.append_nil, List.append_nil, List.map_append]
      rfl
    · have hchunks := hrun.recorded.chunks
      rw [hpieces] at hchunks
      exact hchunks
    · exact .inr ⟨bytes, true, hbody, hsent⟩
    · dsimp only [Handler.respond, Handler.write, Handler.present]
      rw [hshown]
      rfl

theorem contents_piece {c : Capture} {pieces : List Bytes} (hpieces : c.pieces = some pieces)
    (bytes : Bytes) (metadata : Metadata) :
    ({ c with pieces := some (pieces ++ [bytes]), metadata } : Capture).contents =
      c.contents ++ [.responseBody bytes] := by
  unfold Capture.contents
  rw [hpieces]
  simp

theorem relay_good {c : Capture} (bytes : Bytes) (cut : Option (Nat × String))
    (hrun : Running C s h c) (hthrough : Through C h c) (herror : c.metadata.error = none) :
    Good C (h.relay s c bytes cut).1 (h.relay s c bytes cut).2 (h.relay s c bytes cut).2.phase := by
  obtain ⟨request, hbody, hsent⟩ := hthrough.request
  obtain ⟨pieces, code, reason, headers, hpieces, hstatus, hshown⟩ := hthrough.response
  have hmap : c.pieces.map (· ++ [bytes]) = some (pieces ++ [bytes]) := by rw [hpieces]; rfl
  have hrecorded : ∀ {h₁ : Handler}, h₁.request = h.request → h₁.sent = h.sent →
      h₁.written = h.written ++ [⟨c.folder, .responseBody bytes⟩] →
        Recorded C h₁ { c with
          pieces := some (pieces ++ [bytes])
          metadata := { c.metadata with chunks := c.metadata.chunks ++ [bytes.length] } } [] := by
    intro h₁ hrequest₁ hsent₁ hwritten₁
    refine ⟨hrequest₁ ▸ hrun.recorded.heading, ?_, hrequest₁ ▸ hrun.recorded.read,
      hrun.recorded.request, ?_, .inr ⟨request, true, hbody, ?_⟩⟩
    · rw [contents_piece hpieces, hwritten₁, hrun.recorded.written, List.append_nil,
        List.append_nil, List.map_append]
      rfl
    · have hchunks := hrun.recorded.chunks
      rw [hpieces] at hchunks
      dsimp only [Option.getD_some] at hchunks ⊢
      rw [hchunks, List.map_append]
      rfl
    · rw [hsent₁, hsent, hrequest₁]
      rfl
  unfold Handler.relay
  dsimp only
  rw [hmap]
  cases cut with
  | none =>
    refine .relaying ⟨⟨hrun.own.listed, hrun.own.handler, hrun.own.inference⟩,
      hrecorded rfl rfl rfl, hrun.incomplete⟩ ⟨⟨request, hbody, hsent⟩, pieces ++ [bytes], code,
        reason, headers, rfl, hstatus, ?_⟩ herror
    dsimp only [Handler.write, Handler.present]
    rw [hshown, List.map_append]
    rfl
  | some cut =>
    obtain ⟨got, error⟩ := cut
    dsimp only
    refine .ending ⟨hrun.own.listed, hrun.own.handler, hrun.own.inference⟩
      (Recorded.fail ?_ error) (.of_error hrun.incomplete nofun ?_)
    · exact hrecorded rfl rfl rfl
    · dsimp only [Handler.write, Handler.present, Capture.fail]
      rw [hshown]
      exact .cut hstatus

theorem settle_good {c : Capture} (length : Option Nat) (hrun : Running C s h c)
    (hthrough : Through C h c) (herror : c.metadata.error = none) :
    Good C (h.settle s c length).1 (h.settle s c length).2 (h.settle s c length).2.phase := by
  have htold : Told c.metadata.responseStatus c.pieces h.shown := .of_through hthrough
  have hfail : ∀ error, Good C s { h with phase := .ending (c.fail error) }
      (.ending (c.fail error)) := fun error =>
    .ending ⟨hrun.own.listed, hrun.own.handler, hrun.own.inference⟩
      ((hrun.recorded.fail error).congr rfl rfl rfl) (.of_error hrun.incomplete nofun htold)
  unfold Handler.settle
  dsimp only
  split
  · exact hfail _
  · split
    · exact hfail _
    · refine .ending ⟨hrun.own.listed, hrun.own.handler, hrun.own.inference⟩
        ⟨hrun.recorded.heading, hrun.recorded.written, hrun.recorded.read, hrun.recorded.request,
          hrun.recorded.chunks, hrun.recorded.sent⟩
        ⟨⟨fun _ => herror, fun _ => rfl⟩, htold, fun _ => ⟨hthrough.request, hthrough.response⟩⟩

theorem close_good {c : Capture} (hown : Own C s h c.admission) (hrecorded : Recorded C h c [])
    (hends : Ends C h c) :
    Good C (h.close C s c).1 (h.close C s c).2 (h.close C s c).2.phase := by
  refine .done ⟨hown.listed, hown.handler, hown.inference⟩
    ⟨hrecorded.heading, ?_, hrecorded.read, hrecorded.request, hrecorded.chunks, hrecorded.sent⟩
    ⟨hends.error, hends.told, fun h => ⟨(hends.complete h).request, (hends.complete h).response⟩⟩
    ⟨rfl, ?_⟩
  · dsimp only [Handler.close, Handler.write]
    rw [hrecorded.written, List.append_nil, List.map_append]
    rfl
  · dsimp only
    rw [hrecorded.chunks, List.length_flatten]

/-- **A step keeps the invariant of its handler.** -/
theorem Good.step {r : Server × Handler} (hgood : Good C s h h.phase) (hstep : h.Stepped C s r) :
    Good C r.1 r.2 r.2.phase := by
  cases hstep with
  | register hphase hinference =>
    rw [hphase] at hgood
    cases hgood with
    | accepted hblank =>
      exact .active ⟨hblank.written, hblank.sent, hblank.shown⟩ hinference
  | crash hphase hinference =>
    rw [hphase] at hgood
    cases hgood with
    | accepted hblank => exact .crashed ⟨hblank.written, hblank.sent, hblank.shown⟩ nofun
  | number now hphase =>
    rw [hphase] at hgood
    cases hgood with
    | active hblank hinference =>
      exact .numbered ⟨hblank.written, hblank.sent, hblank.shown⟩
        ⟨List.mem_append_right _ (List.mem_singleton_self _), rfl, hinference⟩
  | begin uuid hphase =>
    rw [hphase] at hgood
    cases hgood with
    | numbered hblank hown => exact begin_good uuid hblank hown
  | @rejected c status message hphase =>
    rw [hphase] at hgood
    cases hgood with
    | rejecting hrun hpieces hshown herror =>
      refine .ending ⟨hrun.own.listed, hrun.own.handler, hrun.own.inference⟩
        (hrun.recorded.congr rfl rfl rfl) (.of_error hrun.incomplete herror ?_)
      dsimp only [Handler.present]
      rw [hshown, hpieces]
      exact .reply
  | @failed c error hwaits =>
    have hsame : Running C s h c ∧ c.pieces = none ∧ h.shown = [] := by
      generalize hphase : h.phase = phase at hgood hwaits
      cases hwaits with
      | rejecting =>
        cases hgood with
        | rejecting hrun hpieces hshown => exact ⟨hrun, hpieces, hshown⟩
      | reading =>
        cases hgood with
        | reading hrun _ hpieces hshown => exact ⟨hrun, hpieces, hshown⟩
      | awaiting =>
        cases hgood with
        | awaiting hrun _ _ hpieces hshown => exact ⟨hrun, hpieces, hshown⟩
    obtain ⟨hrun, hpieces, hshown⟩ := hsame
    exact .failing ((hrun.fail error).moved _) hpieces hshown nofun
  | read hphase =>
    rw [hphase] at hgood
    cases hgood with
    | reading hrun hbody hpieces hshown herror hallowed hauth =>
      exact readBody_good hrun hbody hpieces hshown herror hallowed hauth
  | forwarded sending hphase =>
    rw [hphase] at hgood
    cases hgood with
    | sending hrun hbody hsent hpieces hshown herror =>
      exact sendBody_good sending hrun hbody hsent hpieces hshown herror
  | responded status reason headers failure hphase =>
    rw [hphase] at hgood
    cases hgood with
    | awaiting hrun hbody hsent hpieces hshown herror =>
      exact respond_good status reason headers failure hrun hbody hsent hpieces hshown herror
  | relayed bytes cut hphase =>
    rw [hphase] at hgood
    cases hgood with
    | relaying hrun hthrough herror => exact relay_good bytes cut hrun hthrough herror
  | broken error hphase =>
    rw [hphase] at hgood
    cases hgood with
    | relaying hrun hthrough _ =>
      have htold := Told.of_through hthrough
      exact .ending ⟨hrun.own.listed, hrun.own.handler, hrun.own.inference⟩
        ((hrun.recorded.fail error).congr rfl rfl rfl)
        (.of_error hrun.incomplete nofun htold)
  | settled length hphase =>
    rw [hphase] at hgood
    cases hgood with
    | relaying hrun hthrough herror => exact settle_good length hrun hthrough herror
  | @apologised c hphase =>
    rw [hphase] at hgood
    cases hgood with
    | failing hrun hpieces hshown herror =>
      refine .ending ⟨hrun.own.listed, hrun.own.handler, hrun.own.inference⟩
        (hrun.recorded.congr rfl rfl rfl) (.of_error hrun.incomplete herror ?_)
      dsimp only [Handler.present]
      rw [hshown, hpieces]
      exact .reply
  | @silent c hphase =>
    rw [hphase] at hgood
    cases hgood with
    | failing hrun hpieces hshown herror =>
      refine .ending ⟨hrun.own.listed, hrun.own.handler, hrun.own.inference⟩
        (hrun.recorded.congr rfl rfl rfl) (.of_error hrun.incomplete herror ?_)
      rw [hshown, hpieces]
      exact .silent
  | closed hphase =>
    rw [hphase] at hgood
    cases hgood with
    | ending hown hrecorded hends => exact close_good hown hrecorded hends

end ReedCode.CaptureProxy
