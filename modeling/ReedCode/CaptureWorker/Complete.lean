import ReedCode.CaptureWorker.Accounting

/-!
# The records and the stream

* `Consumed`, `Produced` — what a step of one thread leaves alone of the other's data.
* `Phased` — the flags follow the producer, and the writer writes its summary only behind the stop
  flag and with an empty queue.
* `Recorded` — the lines in the writer's way are those of the records.
* `Streamed` — as long as there is no failure, the stream holds the persisted lines and then the
  summary of the state.
-/

set_option autoImplicit false

namespace ReedCode.CaptureWorker

/-! ## Frames -/

/-- What a step of the writer leaves alone. -/
structure Consumed (s s' : State) : Prop where
  processId : s'.processId = s.processId
  pid : s'.pid = s.pid
  sequence : s'.sequence = s.sequence
  closed : s'.closed = s.closed
  stop : s'.stop = s.stop
  producer : s'.producer = s.producer
  calls : s'.history.calls = s.history.calls
  records : s'.history.records = s.history.records
  line : ∀ entry ∈ s'.ledger.line, entry ∈ s.ledger.line
  failures : s.failures <+: s'.failures

theorem consume_frame {J : Json} {s s' : State} {outcome : Outcome}
    (hstep : s.consume J outcome = some s') : Consumed s s' := by
  have hline {writer : Writer} {stream : Text} {summaryWritten : Bool}
      {summary : Option (Value × Text)} {failures : List Value}
      (hhand : writer.hand = s.writer.hand) (hfailures : s.failures <+: failures) :
      Consumed s { s with
        stream, summaryWritten, failures, writer, history := { s.history with summary } } :=
    ⟨rfl, rfl, rfl, rfl, rfl, rfl, rfl, rfl, fun entry => by
      simp [State.ledger, Ledger.line, hhand], hfailures⟩
  have hsame := List.prefix_refl s.failures
  unfold State.consume at hstep
  cases hw : s.writer with
  | loop | stopping =>
    rw [hw] at hstep
    cases hstep
    refine hline ?_ hsame
    split <;> simp [hw, Writer.hand]
  | getting =>
    rw [hw] at hstep
    dsimp only at hstep
    split at hstep
    · cases hstep
      exact hline (by rw [hw]; rfl) hsame
    · rename_i hqueue
      cases hstep
      exact ⟨rfl, rfl, rfl, rfl, rfl, rfl, rfl, rfl, fun entry => by
        simp [State.ledger, Ledger.line, hw, hqueue, Writer.hand], hsame⟩
  | holding entry =>
    rw [hw] at hstep
    cases outcome <;> cases hstep <;> exact hline (by rw [hw]; rfl) hsame
  | wrote entry =>
    rw [hw] at hstep
    obtain ⟨-, rfl⟩ := State.whenFree_eq_some.1 hstep
    exact ⟨rfl, rfl, rfl, rfl, rfl, rfl, rfl, rfl, fun entry => by
      simp [State.ledger, State.persist, Ledger.line, hw, Writer.hand], hsame⟩
  | failing entry error =>
    rw [hw] at hstep
    obtain ⟨-, rfl⟩ := State.whenFree_eq_some.1 hstep
    refine ⟨rfl, rfl, rfl, rfl, rfl, rfl, rfl, rfl, fun entry => ?_, List.prefix_append _ _⟩
    simp only [State.ledger, State.fail, Ledger.line, hw, Writer.hand, List.mem_append,
      List.mem_singleton, List.nil_append]
    tauto
  | summarizing =>
    rw [hw] at hstep
    obtain ⟨-, rfl⟩ := State.whenFree_eq_some.1 hstep
    unfold State.summarize
    split
    · exact hline (by rw [hw]; rfl) hsame
    · exact hline (by rw [hw]; rfl) hsame
  | summarized summary text =>
    rw [hw] at hstep
    cases outcome <;> cases hstep <;> exact hline (by rw [hw]; rfl) hsame
  | summaryFailed error | closeFailed error =>
    rw [hw] at hstep
    obtain ⟨-, rfl⟩ := State.whenFree_eq_some.1 hstep
    exact hline (by rw [hw]; rfl) (List.prefix_append _ _)
  | closing =>
    rw [hw] at hstep
    cases outcome <;> cases hstep <;> exact hline (by rw [hw]; rfl) hsame
  | flushed | exiting =>
    rw [hw] at hstep
    cases hstep
    exact hline (by rw [hw]; rfl) hsame
  | ended => simp [hw] at hstep

/-- What a step of the producer leaves alone. -/
structure Produced (s s' : State) : Prop where
  processId : s'.processId = s.processId
  pid : s'.pid = s.pid
  writer : s'.writer = s.writer
  stream : s'.stream = s.stream
  summaryWritten : s'.summaryWritten = s.summaryWritten
  persisted : s'.history.persisted = s.history.persisted
  summary : s'.history.summary = s.history.summary
  failures : s.failures <+: s'.failures

theorem produce_frame {J : Json} {s s' : State} {now wall : Nat}
    (hstep : s.produce J now wall = some s') : Produced s s' := by
  have hsame := List.prefix_refl s.failures
  unfold State.produce at hstep
  cases hp : s.producer with
  | starting | idle | returned => simp [hp] at hstep
  | called closing call started =>
    rw [hp] at hstep
    cases hstep
    unfold State.serialize
    dsimp only
    split <;> exact ⟨rfl, rfl, rfl, rfl, rfl, rfl, rfl, hsame⟩
  | refused closing started error =>
    rw [hp] at hstep
    cases hstep
    exact ⟨rfl, rfl, rfl, rfl, rfl, rfl, rfl, List.prefix_append _ _⟩
  | encoded closing started text =>
    rw [hp] at hstep
    cases hstep
    unfold State.enqueue
    split
    · exact ⟨rfl, rfl, rfl, rfl, rfl, rfl, rfl, List.prefix_append _ _⟩
    · split
      · exact ⟨rfl, rfl, rfl, rfl, rfl, rfl, rfl, List.prefix_append _ _⟩
      · exact ⟨rfl, rfl, rfl, rfl, rfl, rfl, rfl, hsame⟩
  | counting closing started serialized put =>
    rw [hp] at hstep
    cases hstep
    cases put <;> exact ⟨rfl, rfl, rfl, rfl, rfl, rfl, rfl, hsame⟩
  | timedOut =>
    rw [hp] at hstep
    cases hstep
    exact ⟨rfl, rfl, rfl, rfl, rfl, rfl, rfl, List.prefix_append _ _⟩
  | closeWritten | closeMarked | joining | joined | reporting | reported | judged =>
    rw [hp] at hstep
    cases hstep
    exact ⟨rfl, rfl, rfl, rfl, rfl, rfl, rfl, hsame⟩

/-! ## Phases -/

/-- Behind `self.stop.set()`. -/
def Producer.stopped : Producer → Bool
  | .joining | .joined | .timedOut | .reporting | .reported _ | .judged _ | .returned _ => true
  | _ => false

/-- Behind `self.closed = True`. -/
def Producer.marked (p : Producer) : Bool := p == .closeMarked || p.stopped

/-- Behind the loop of `_writer`. -/
def Writer.drained : Writer → Bool
  | .summarizing | .summarized .. | .summaryFailed _ | .flushed | .closing | .closeFailed _
  | .exiting | .ended => true
  | _ => false

structure Phased (s : State) : Prop where
  stop : s.stop = s.producer.stopped
  closed : s.closed = s.producer.marked
  stopping : s.writer = .stopping → s.stop = true
  drained : s.writer.drained = true → s.stop = true ∧ s.queue = []

/-- A stopped producer adds a failure at most. -/
theorem produce_stopped {J : Json} {s s' : State} {now wall : Nat}
    (hstopped : s.producer.stopped = true) (hstep : s.produce J now wall = some s') :
    ∃ producer failures, s' = { s with producer, failures } ∧ producer.stopped = true ∧
      s.failures <+: failures := by
  have hsame := List.prefix_refl s.failures
  unfold State.produce at hstep
  cases hp : s.producer with
  | starting | idle | called | refused | encoded | counting | closeWritten | closeMarked =>
    rw [hp] at hstopped
    cases hstopped
  | joining | reporting | reported | judged =>
    rw [hp] at hstep
    cases hstep
    exact ⟨_, _, rfl, rfl, hsame⟩
  | joined =>
    rw [hp] at hstep
    cases hstep
    refine ⟨_, _, rfl, ?_, hsame⟩
    split <;> rfl
  | timedOut =>
    rw [hp] at hstep
    cases hstep
    exact ⟨_, _, rfl, rfl, List.prefix_append _ _⟩
  | returned => simp [hp] at hstep

theorem phased_call {s : State} (h : Phased s)
    (hp : s.producer = .starting ∨ s.producer = .idle) (closing : Bool) (call : Call) (now : Nat) :
    Phased (s.call closing call now) := by
  have hstopped : s.producer.stopped = false := by rcases hp with hp | hp <;> rw [hp] <;> rfl
  have hmarked : s.producer.marked = false := by rcases hp with hp | hp <;> rw [hp] <;> rfl
  exact ⟨h.stop.trans hstopped, h.closed.trans hmarked, h.stopping, h.drained⟩

theorem produce_phased {J : Json} {s s' : State} (h : Phased s) {now wall : Nat}
    (hstep : s.produce J now wall = some s') : Phased s' := by
  by_cases hstopped : s.producer.stopped = true
  · obtain ⟨producer, failures, rfl, hstopped', -⟩ := produce_stopped hstopped hstep
    refine ⟨?_, ?_, h.stopping, h.drained⟩
    · rw [h.stop, hstopped, hstopped']
    · rw [h.closed, Producer.marked, Producer.marked, hstopped, hstopped', Bool.or_true,
        Bool.or_true]
  · -- the writer has not seen the flag
    have hrunning : ¬ s.stop = true := by rwa [h.stop]
    have hwriter := (produce_frame hstep).writer
    suffices hflags : s'.stop = s'.producer.stopped ∧ s'.closed = s'.producer.marked from
      ⟨hflags.1, hflags.2, fun hw => absurd (h.stopping (hwriter ▸ hw)) hrunning,
        fun hw => absurd (h.drained (hwriter ▸ hw)).1 hrunning⟩
    have hstop := h.stop
    have hclosed := h.closed
    unfold State.produce at hstep
    cases hp : s.producer with
    | called closing call started =>
      rw [hp] at hstep hstop hclosed
      cases hstep
      unfold State.serialize
      dsimp only
      split <;> exact ⟨hstop, hclosed⟩
    | refused closing started error =>
      rw [hp] at hstep hstop hclosed
      cases hstep
      cases closing <;> exact ⟨hstop, hclosed⟩
    | encoded closing started text =>
      rw [hp] at hstep hstop hclosed
      cases hstep
      unfold State.enqueue
      split
      · exact ⟨hstop, hclosed⟩
      · split <;> exact ⟨hstop, hclosed⟩
    | counting closing started serialized put =>
      rw [hp] at hstep hstop hclosed
      cases hstep
      cases put <;> cases closing <;> exact ⟨hstop, hclosed⟩
    | closeWritten =>
      rw [hp] at hstep hstop hclosed
      cases hstep
      exact ⟨hstop, rfl⟩
    | closeMarked =>
      rw [hp] at hstep hstop hclosed
      cases hstep
      exact ⟨rfl, hclosed⟩
    | starting | idle => simp [hp] at hstep
    | joining | joined | timedOut | reporting | reported | judged | returned =>
      simp [hp, Producer.stopped] at hstopped

theorem consume_phased {J : Json} {s s' : State} (h : Phased s) {outcome : Outcome}
    (hstep : s.consume J outcome = some s') : Phased s' := by
  have hframe := consume_frame hstep
  suffices hwriter : (s'.writer = .stopping → s.stop = true) ∧
      (s'.writer.drained = true → s.stop = true ∧ s'.queue = []) from
    ⟨by rw [hframe.stop, hframe.producer, h.stop], by rw [hframe.closed, hframe.producer, h.closed],
      fun hw => hframe.stop.trans (hwriter.1 hw), fun hw => by
        rw [hframe.stop]
        exact hwriter.2 hw⟩
  have hdrained := h.drained
  unfold State.consume at hstep
  cases hw : s.writer with
  | loop =>
    rw [hw] at hstep
    cases hstep
    cases hstop : s.stop <;> simp [Writer.drained]
  | stopping =>
    rw [hw] at hstep
    cases hstep
    have hstop := h.stopping hw
    cases hqueue : s.queue <;> simp [Writer.drained, hstop]
  | getting =>
    rw [hw] at hstep
    dsimp only at hstep
    split at hstep <;> cases hstep <;> exact ⟨fun hw => (by cases hw), fun hw => (by cases hw)⟩
  | holding entry =>
    rw [hw] at hstep
    cases outcome <;> cases hstep <;> exact ⟨fun hw => (by cases hw), fun hw => (by cases hw)⟩
  | wrote entry | failing entry error =>
    rw [hw] at hstep
    obtain ⟨-, rfl⟩ := State.whenFree_eq_some.1 hstep
    exact ⟨fun hw => (by cases hw), fun hw => (by cases hw)⟩
  | summarizing =>
    rw [hw] at hstep hdrained
    obtain ⟨-, rfl⟩ := State.whenFree_eq_some.1 hstep
    unfold State.summarize
    split <;> exact ⟨fun hw => (by cases hw), fun _ => hdrained rfl⟩
  | summarized summary text =>
    rw [hw] at hstep hdrained
    cases outcome <;> cases hstep <;> exact ⟨fun hw => (by cases hw), fun _ => hdrained rfl⟩
  | summaryFailed error | closeFailed error =>
    rw [hw] at hstep hdrained
    obtain ⟨-, rfl⟩ := State.whenFree_eq_some.1 hstep
    exact ⟨fun hw => (by cases hw), fun _ => hdrained rfl⟩
  | closing =>
    rw [hw] at hstep hdrained
    cases outcome <;> cases hstep <;> exact ⟨fun hw => (by cases hw), fun _ => hdrained rfl⟩
  | flushed | exiting =>
    rw [hw] at hstep hdrained
    cases hstep
    exact ⟨fun hw => (by cases hw), fun _ => hdrained rfl⟩
  | ended => simp [hw] at hstep

/-! ## Records -/

/-- The line of a record. -/
def LineOf (J : Json) (records : List Value) (entry : Entry) : Prop :=
  ∃ record text, records[entry.1 - 1]? = some record ∧ J.dumps record = .ok text ∧
    entry.2 = text ++ ['\n']

theorem LineOf.append {J : Json} {records : List Value} {entry : Entry} (h : LineOf J records entry)
    (more : List Value) : LineOf J (records ++ more) entry := by
  obtain ⟨record, text, hrecord, hdumps, htext⟩ := h
  have hbound := (List.getElem?_eq_some_iff.1 hrecord).1
  exact ⟨record, text, (List.getElem?_append_left hbound).trans hrecord, hdumps, htext⟩

/-- The producer is inside the last call, or behind it. -/
def Producer.closing : Producer → Bool
  | .called closing .. | .refused closing .. | .encoded closing .. | .counting closing .. => closing
  | .closeWritten => true
  | p => p.marked

/-- The record of the current call has not been made. -/
def Producer.unrecorded : Producer → Bool
  | .called .. => true
  | _ => false

structure Recorded (J : Json) (s : State) : Prop where
  calls : s.history.calls.length = s.sequence
  records : s.history.records.length =
    if s.producer.unrecorded then s.sequence - 1 else s.sequence
  record : ∀ {i : Nat} {record : Value}, s.history.records[i]? = some record →
    ∃ call monotonic wall, s.history.calls[i]? = some call ∧
      record = call.record s.processId s.pid (i + 1) monotonic wall
  starting : s.producer = .starting → s.history.calls = []
  first : s.producer ≠ .starting → s.history.calls.head? = some captureStart
  last : s.producer.closing = true → s.history.calls.getLast? = some captureClose
  current : ∀ {closing : Bool} {call : Call} {started : Nat},
    s.producer = .called closing call started → s.history.calls.getLast? = some call
  encoded : ∀ {closing : Bool} {started : Nat} {text : Text},
    s.producer = .encoded closing started text → LineOf J s.history.records (s.sequence, text)
  line : ∀ entry ∈ s.ledger.line, LineOf J s.history.records entry

theorem consume_recorded {J : Json} {s s' : State} (h : Recorded J s) {outcome : Outcome}
    (hstep : s.consume J outcome = some s') : Recorded J s' := by
  have hframe := consume_frame hstep
  refine ⟨?_, ?_, fun {i record} hrecord => ?_, fun hp => ?_, fun hp => ?_, fun hp => ?_,
    fun hp => ?_, fun hp => ?_, fun entry hentry => ?_⟩
  · rw [hframe.calls, hframe.sequence, h.calls]
  · rw [hframe.records, hframe.producer, hframe.sequence, h.records]
  · rw [hframe.records] at hrecord
    rw [hframe.calls, hframe.processId, hframe.pid]
    exact h.record hrecord
  · rw [hframe.calls]
    exact h.starting (hframe.producer ▸ hp)
  · rw [hframe.calls]
    exact h.first (hframe.producer ▸ hp)
  · rw [hframe.calls]
    exact h.last (hframe.producer ▸ hp)
  · rw [hframe.calls]
    exact h.current (hframe.producer ▸ hp)
  · rw [hframe.records, hframe.sequence]
    exact h.encoded (hframe.producer ▸ hp)
  · rw [hframe.records]
    exact h.line entry (hframe.line entry hentry)

theorem recorded_call {J : Json} {s : State} (h : Recorded J s)
    (hp : s.producer = .starting ∨ s.producer = .idle) {closing : Bool} {call : Call}
    (hstart : s.producer = .starting → call = captureStart)
    (hclose : closing = true → call = captureClose) (now : Nat) :
    Recorded J (s.call closing call now) := by
  have hrecords : s.history.records.length = s.sequence := by
    have hlength := h.records
    rcases hp with hp | hp <;> simpa [hp, Producer.unrecorded] using hlength
  refine ⟨?_, hrecords, fun {i record} hrecord => ?_, fun hp => (by cases hp), fun _ => ?_,
    fun hclosing => ?_, fun hcalled => ?_, fun hencoded => (by cases hencoded), h.line⟩
  · simp [State.call, h.calls]
  · obtain ⟨call', monotonic, wall, hcall, hrecord'⟩ := h.record hrecord
    have hbound := (List.getElem?_eq_some_iff.1 hcall).1
    exact ⟨call', monotonic, wall, (List.getElem?_append_left hbound).trans hcall, hrecord'⟩
  · by_cases hstarting : s.producer = .starting
    · simp [State.call, h.starting hstarting, hstart hstarting]
    · simp [State.call, List.head?_append, h.first hstarting]
  · rw [← hclose hclosing]
    exact List.getLast?_concat
  · cases hcalled
    exact List.getLast?_concat

theorem recorded_serialize {J : Json} {s : State} (h : Recorded J s) {closing : Bool} {call : Call}
    {started : Nat} (hp : s.producer = .called closing call started) (now wall : Nat) :
    Recorded J (s.serialize J closing call started now wall) := by
  have hcall := h.current hp
  have hcalls : s.history.calls[s.sequence - 1]? = some call := by
    rw [← hcall, List.getLast?_eq_getElem?, h.calls]
  have hpos : 0 < s.sequence := by
    rw [← h.calls, List.length_pos_iff]
    rintro hnil
    rw [hnil] at hcall
    cases hcall
  have hlength : s.history.records.length = s.sequence - 1 := by
    simpa [hp, Producer.unrecorded] using h.records
  have hnext : s.sequence - 1 + 1 = s.sequence := Nat.sub_add_cancel hpos
  have hnew (record : Value) : (s.history.records ++ [record])[s.sequence - 1]? = some record := by
    rw [← hlength]
    exact List.getElem?_concat_length
  have hrecord {i : Nat} {record : Value}
      (hi : (s.history.records ++ [call.record s.processId s.pid s.sequence now wall])[i]? =
        some record) : ∃ call monotonic wall, s.history.calls[i]? = some call ∧
          record = call.record s.processId s.pid (i + 1) monotonic wall := by
    rcases Nat.lt_or_ge i s.history.records.length with hlt | hge
    · rw [List.getElem?_append_left hlt] at hi
      exact h.record hi
    · have hbound := (List.getElem?_eq_some_iff.1 hi).1
      rw [List.length_append, List.length_singleton] at hbound
      obtain rfl : i = s.sequence - 1 := by omega
      rw [hnew] at hi
      cases hi
      exact ⟨call, now, wall, hcalls, by rw [hnext]⟩
  have hfirst := h.first (by rw [hp]; exact Producer.noConfusion)
  have hlast := h.last
  rw [hp] at hlast
  unfold State.serialize
  dsimp only
  split
  · refine ⟨h.calls, by simp [Producer.unrecorded, hlength, hnext], hrecord,
      fun hp => (by cases hp), fun _ => hfirst, hlast, fun hp => (by cases hp),
      fun hp => (by cases hp), fun entry hentry => ?_⟩
    exact (h.line entry hentry).append _
  · rename_i text hdumps
    refine ⟨h.calls, by simp [Producer.unrecorded, hlength, hnext], hrecord,
      fun hp => (by cases hp), fun _ => hfirst, hlast, fun hp => (by cases hp),
      fun hp => ?_, fun entry hentry => ?_⟩
    · cases hp
      exact ⟨_, text, hnew _, hdumps, rfl⟩
    · exact (h.line entry hentry).append _

/-- A step that makes no record and puts no line. -/
theorem Recorded.keep {J : Json} {s s' : State} (h : Recorded J s)
    (hids : s'.processId = s.processId ∧ s'.pid = s.pid)
    (hcalls : s'.history.calls = s.history.calls)
    (hrecords : s'.history.records = s.history.records) (hsequence : s'.sequence = s.sequence)
    (hp : s.producer.unrecorded = false ∧ s.producer ≠ .starting)
    (hp' : s'.producer.unrecorded = false ∧ s'.producer ≠ .starting)
    (hclosing : s'.producer.closing = true → s.producer.closing = true)
    (hencoded : ∀ {closing : Bool} {started : Nat} {text : Text},
      s'.producer ≠ .encoded closing started text)
    (hline : ∀ entry ∈ s'.ledger.line, LineOf J s.history.records entry) : Recorded J s' where
  calls := by rw [hcalls, hsequence, h.calls]
  records := by
    have hlength := h.records
    rw [hp.1, if_neg Bool.false_ne_true] at hlength
    rw [hrecords, hsequence, hp'.1, if_neg Bool.false_ne_true, hlength]
  record hrecord := by
    rw [hrecords] at hrecord
    rw [hcalls, hids.1, hids.2]
    exact h.record hrecord
  starting hstarting := absurd hstarting hp'.2
  first _ := by
    rw [hcalls]
    exact h.first hp.2
  last hlast := by
    rw [hcalls]
    exact h.last (hclosing hlast)
  current hcalled := by
    rw [hcalled] at hp'
    cases hp'.1
  encoded hin := absurd hin hencoded
  line entry hentry := by
    rw [hrecords]
    exact hline entry hentry

theorem recorded_enqueue {J : Json} {s : State} (h : Recorded J s) {closing : Bool} {started : Nat}
    {text : Text} (hp : s.producer = .encoded closing started text) (now : Nat) :
    Recorded J (s.enqueue closing started text now) := by
  have hp₀ : s.producer.unrecorded = false ∧ s.producer ≠ .starting := by
    rw [hp]
    exact ⟨rfl, Producer.noConfusion⟩
  have hclosing (put : Bool) : (Producer.counting closing started now put).closing = true →
      s.producer.closing = true := by
    rw [hp]
    exact id
  unfold State.enqueue
  split
  · exact h.keep ⟨rfl, rfl⟩ rfl rfl rfl hp₀ ⟨rfl, Producer.noConfusion⟩ (hclosing _)
      Producer.noConfusion h.line
  · split
    · exact h.keep ⟨rfl, rfl⟩ rfl rfl rfl hp₀ ⟨rfl, Producer.noConfusion⟩ (hclosing _)
        Producer.noConfusion h.line
    · refine h.keep ⟨rfl, rfl⟩ rfl rfl rfl hp₀ ⟨rfl, Producer.noConfusion⟩ (hclosing _)
        Producer.noConfusion fun entry hentry => ?_
      -- the line of the current record is the last one now
      simp only [State.ledger, Ledger.line, List.mem_append, List.mem_singleton] at hentry
      rcases hentry with hentry | hentry | hentry | rfl
      · exact h.line entry (by simp [State.ledger, Ledger.line, hentry])
      · exact h.line entry (by simp [State.ledger, Ledger.line, hentry])
      · exact h.line entry (by simp [State.ledger, Ledger.line, hentry])
      · exact h.encoded hp

theorem Recorded.return {J : Json} {s s' : State} (h : Recorded J s) {closing : Bool}
    (hids : s'.processId = s.processId ∧ s'.pid = s.pid) (hcalls : s'.history.calls = s.history.calls)
    (hrecords : s'.history.records = s.history.records) (hsequence : s'.sequence = s.sequence)
    (hp : s.producer.unrecorded = false ∧ s.producer ≠ .starting)
    (hclosing : s.producer.closing = closing) (hline : s'.ledger.line = s.ledger.line) :
    Recorded J (s'.return closing) := by
  refine h.keep hids hcalls hrecords hsequence hp ?_ ?_ ?_ fun entry hentry => ?_
  · cases closing <;> exact ⟨rfl, Producer.noConfusion⟩
  · cases closing
    · exact fun hlast => (by cases hlast)
    · exact fun _ => hclosing
  · cases closing <;> exact Producer.noConfusion
  · exact h.line entry (hline ▸ hentry)

theorem produce_recorded {J : Json} {s s' : State} (h : Recorded J s) {now wall : Nat}
    (hstep : s.produce J now wall = some s') : Recorded J s' := by
  unfold State.produce at hstep
  cases hp : s.producer with
  | starting | idle | returned => simp [hp] at hstep
  | called closing call started =>
    rw [hp] at hstep
    cases hstep
    exact recorded_serialize h hp now wall
  | refused closing started error =>
    rw [hp] at hstep
    cases hstep
    exact h.return ⟨rfl, rfl⟩ rfl rfl rfl (by rw [hp]; exact ⟨rfl, Producer.noConfusion⟩)
      (by rw [hp]; rfl) rfl
  | encoded closing started text =>
    rw [hp] at hstep
    cases hstep
    exact recorded_enqueue h hp now
  | counting closing started serialized put =>
    rw [hp] at hstep
    cases hstep
    cases put <;>
      exact h.return ⟨rfl, rfl⟩ rfl rfl rfl (by rw [hp]; exact ⟨rfl, Producer.noConfusion⟩)
        (by rw [hp]; rfl) rfl
  | joined =>
    rw [hp] at hstep
    cases hstep
    refine h.keep ⟨rfl, rfl⟩ rfl rfl rfl (by rw [hp]; exact ⟨rfl, Producer.noConfusion⟩) ?_
      (fun _ => by rw [hp]; rfl) ?_ h.line
    · dsimp only
      split <;> exact ⟨rfl, Producer.noConfusion⟩
    · dsimp only
      split <;> exact Producer.noConfusion
  | closeWritten | closeMarked | joining | timedOut | reporting | reported | judged =>
    rw [hp] at hstep
    cases hstep
    exact h.keep ⟨rfl, rfl⟩ rfl rfl rfl (by rw [hp]; exact ⟨rfl, Producer.noConfusion⟩)
      ⟨rfl, Producer.noConfusion⟩ (fun _ => by rw [hp]; rfl) Producer.noConfusion h.line

/-! ## The stream -/

/-- The entry is on the stream and not yet counted as persisted. -/
def Writer.written : Writer → List Entry
  | .wrote entry => [entry]
  | _ => []

/-- A write has failed, and the failure is not yet recorded. -/
def Writer.torn : Writer → Bool
  | .failing .. | .summaryFailed _ => true
  | _ => false

/-- The summary may be on the stream. -/
def Writer.past : Writer → Bool
  | .flushed | .summaryFailed _ | .closing | .closeFailed _ | .exiting | .ended => true
  | _ => false

/-- A summary and its line; where a failure is recorded, an earlier one. -/
def SummaryOf (J : Json) (s : State) (summary : Value) (line : Text) : Prop :=
  s.failures = [] → summary = s.status.summary ∧
    ∃ text, J.dumps summary = .ok text ∧ line = text ++ ['\n']

/-- The text of the entries and the summary. -/
def State.written (s : State) : Text :=
  ((s.history.persisted ++ s.writer.written).map Prod.snd).flatten ++
    (s.history.summary.map Prod.snd).getD []

structure Streamed (J : Json) (s : State) : Prop where
  text : s.failures = [] → s.writer.torn = false → s.stream = s.written
  pending : ∀ {summary : Value} {line : Text}, s.writer = .summarized summary line →
    SummaryOf J s summary line
  summary : ∀ {summary : Value} {line : Text}, s.history.summary = some (summary, line) →
    SummaryOf J s summary line
  before : s.writer.past = false → s.history.summary = none
  flushed : s.writer = .flushed ∨ s.summaryWritten = true → s.history.summary.isSome = true

theorem Writer.drained_of_past {w : Writer} (h : w.past = true) : w.drained = true := by
  cases w <;> first | rfl | cases h

/-- The fields of a summary, one by one. -/
theorem summary_eq (status : Status) : status.summary = .dict
    [("kind", .str "writer_summary"), ("capture_process_id", .str status.captureProcessId),
      ("attempted_records", .int status.attemptedRecords),
      ("queued_records", .int status.queuedRecords),
      ("persisted_records", .int status.persistedRecords),
      ("failed_writes", .int status.failedWrites), ("dropped_records", .int status.droppedRecords),
      ("pending_records", .int status.pendingRecords), ("failures", .list status.failures),
      ("callback_timings", .list status.callbackTimings),
      ("valid_capture", .bool status.validCapture)] := by
  simp [Status.summary, Status.fields, update, FinMap.insertEntry]

/-- What the summary says does not depend on `summary_written`. -/
theorem summary_congr (status : Status) (summaryWritten : Bool) :
    ({ status with summaryWritten } : Status).summary = status.summary := by
  rw [summary_eq, summary_eq]

theorem streamed_produced {J : Json} {s s' : State} (h : Streamed J s) (hframe : Produced s s')
    (hsummary : s.writer.drained = true → s'.failures = [] → s'.status.summary = s.status.summary) :
    Streamed J s' := by
  have hclean (hfailures : s'.failures = []) : s.failures = [] :=
    List.prefix_nil.1 (hfailures ▸ hframe.failures)
  have hof {summary : Value} {line : Text} (hdrained : s.writer.drained = true)
      (hof : SummaryOf J s summary line) : SummaryOf J s' summary line := fun hfailures => by
    rw [hsummary hdrained hfailures]
    exact hof (hclean hfailures)
  refine ⟨fun hfailures htorn => ?_, fun hw => ?_, fun hsum => ?_, fun hpast => ?_, fun hw => ?_⟩
  · rw [hframe.writer] at htorn
    rw [hframe.stream, State.written, hframe.persisted, hframe.writer, hframe.summary]
    exact h.text (hclean hfailures) htorn
  · rw [hframe.writer] at hw
    exact hof (by rw [hw]; rfl) (h.pending hw)
  · rw [hframe.summary] at hsum
    refine hof (Writer.drained_of_past ?_) (h.summary hsum)
    by_contra hpast
    rw [h.before (by simpa using hpast)] at hsum
    cases hsum
  · rw [hframe.writer] at hpast
    rw [hframe.summary]
    exact h.before hpast
  · rw [hframe.writer, hframe.summaryWritten] at hw
    rw [hframe.summary]
    exact h.flushed hw

theorem produce_streamed {J : Json} {s s' : State} (hphased : Phased s) (h : Streamed J s)
    {now wall : Nat} (hstep : s.produce J now wall = some s') : Streamed J s' := by
  refine streamed_produced h (produce_frame hstep) fun hdrained hfailures => ?_
  have hstopped : s.producer.stopped = true := hphased.stop ▸ (hphased.drained hdrained).1
  obtain ⟨producer, failures, rfl, -, hnone'⟩ := produce_stopped hstopped hstep
  obtain rfl : failures = [] := hfailures
  have hnone : s.failures = [] := List.prefix_nil.1 hnone'
  unfold State.status
  rw [hnone]

/-- A step of the writer in front of its summary. -/
theorem Streamed.before_summary {J : Json} {s s' : State} (h : Streamed J s)
    (hpast : s.writer.past = false) (hpast' : s'.writer.past = false)
    (hsummary : s'.history.summary = s.history.summary)
    (hwritten : s'.summaryWritten = s.summaryWritten)
    (hpending : ∀ {summary : Value} {line : Text}, s'.writer ≠ .summarized summary line)
    (htext : s'.failures = [] → s'.writer.torn = false → s'.stream = s'.written) : Streamed J s' where
  text := htext
  pending hw := absurd hw hpending
  summary hsum := by
    rw [hsummary, h.before hpast] at hsum
    cases hsum
  before _ := by rw [hsummary, h.before hpast]
  flushed hw := by
    rw [hsummary]
    refine h.flushed (.inr ?_)
    rcases hw with hw | hw
    · rw [hw] at hpast'
      cases hpast'
    · rwa [← hwritten]

/-- A step of the writer behind its summary. -/
theorem Streamed.after_summary {J : Json} {s s' : State} (h : Streamed J s)
    (hpast' : s'.writer.past = true) (hsummary : s'.history.summary = s.history.summary)
    (hstatus : s'.failures = [] → s.failures = [] ∧ s'.status.summary = s.status.summary)
    (hflushed : s'.writer = .flushed ∨ s'.summaryWritten = true →
      s.writer = .flushed ∨ s.summaryWritten = true)
    (htext : s'.failures = [] → s'.writer.torn = false → s'.stream = s'.written) : Streamed J s' where
  text := htext
  pending hw := by
    rw [hw] at hpast'
    cases hpast'
  summary hsum hfailures := by
    obtain ⟨hclean, hsame⟩ := hstatus hfailures
    rw [hsummary] at hsum
    rw [hsame]
    exact h.summary hsum hclean
  before hpast := by
    rw [hpast'] at hpast
    cases hpast
  flushed hw := by
    rw [hsummary]
    exact h.flushed (hflushed hw)

theorem streamed_summarize {J : Json} {s : State} (h : Streamed J s)
    (hw : s.writer = .summarizing) : Streamed J (s.summarize J) := by
  have hnone : s.history.summary = none := h.before (by rw [hw]; rfl)
  have htext (hfailures : s.failures = []) : s.stream = s.written :=
    h.text hfailures (by rw [hw]; rfl)
  have hflushed : s.summaryWritten = true → s.history.summary.isSome = true :=
    fun hwritten => h.flushed (.inr hwritten)
  unfold State.summarize
  split
  · refine ⟨fun _ htorn => (by cases htorn), fun hw => (by cases hw), fun hsum => ?_,
      fun _ => hnone, fun hw => hflushed (hw.resolve_left Writer.noConfusion)⟩
    rw [hnone] at hsum
    cases hsum
  · rename_i text hdumps
    refine ⟨fun hfailures _ => ?_, fun hw => ?_, fun hsum => ?_, fun _ => hnone,
      fun hw => hflushed (hw.resolve_left Writer.noConfusion)⟩
    · simpa [State.written, hw, Writer.written] using htext hfailures
    · cases hw
      exact fun _ => ⟨rfl, text, hdumps, rfl⟩
    · rw [hnone] at hsum
      cases hsum

theorem consume_streamed {J : Json} {s s' : State} (h : Streamed J s) {outcome : Outcome}
    (hstep : s.consume J outcome = some s') : Streamed J s' := by
  have htext := h.text
  unfold State.written at htext
  unfold State.consume at hstep
  cases hw : s.writer with
  | loop =>
    rw [hw] at hstep htext
    cases hstep
    cases hstop : s.stop <;>
      exact h.before_summary (by rw [hw]; rfl) rfl rfl rfl Writer.noConfusion htext
  | stopping =>
    rw [hw] at hstep htext
    cases hstep
    cases hqueue : s.queue.isEmpty <;>
      exact h.before_summary (by rw [hw]; rfl) rfl rfl rfl Writer.noConfusion htext
  | getting =>
    rw [hw] at hstep htext
    dsimp only at hstep
    split at hstep <;> cases hstep <;>
      exact h.before_summary (by rw [hw]; rfl) rfl rfl rfl Writer.noConfusion htext
  | holding entry =>
    rw [hw] at hstep htext
    have hnone : s.history.summary = none := h.before (by rw [hw]; rfl)
    cases outcome with
    | ok =>
      cases hstep
      refine h.before_summary (by rw [hw]; rfl) rfl rfl rfl Writer.noConfusion fun hfailures _ => ?_
      simp [State.written, Writer.written, htext hfailures rfl, hnone]
    | fails error reached =>
      cases hstep
      exact h.before_summary (by rw [hw]; rfl) rfl rfl rfl Writer.noConfusion
        fun _ htorn => (by cases htorn)
  | wrote entry =>
    rw [hw] at hstep htext
    obtain ⟨-, rfl⟩ := State.whenFree_eq_some.1 hstep
    refine h.before_summary (by rw [hw]; rfl) rfl rfl rfl Writer.noConfusion fun hfailures _ => ?_
    simpa [State.written, State.persist, Writer.written] using htext hfailures rfl
  | failing entry error =>
    rw [hw] at hstep
    obtain ⟨-, rfl⟩ := State.whenFree_eq_some.1 hstep
    exact h.before_summary (by rw [hw]; rfl) rfl rfl rfl Writer.noConfusion
      fun hfailures => absurd hfailures (by simp [State.fail])
  | summarizing =>
    rw [hw] at hstep
    obtain ⟨-, rfl⟩ := State.whenFree_eq_some.1 hstep
    exact streamed_summarize h hw
  | summarized summary line =>
    have hnone : s.history.summary = none := h.before (by rw [hw]; rfl)
    rw [hw] at hstep htext
    cases outcome with
    | ok =>
      cases hstep
      refine ⟨fun hfailures _ => ?_, fun hw => (by cases hw), fun hsum => ?_,
        fun hpast => (by cases hpast), fun _ => rfl⟩
      · simp [State.written, Writer.written, htext hfailures rfl, hnone]
      · cases hsum
        exact h.pending hw
    | fails error reached =>
      cases hstep
      refine h.after_summary rfl rfl (fun hfailures => ⟨hfailures, rfl⟩) (fun hw => ?_)
        fun _ htorn => (by cases htorn)
      exact .inr (hw.resolve_left Writer.noConfusion)
  | flushed =>
    rw [hw] at hstep htext
    cases hstep
    exact h.after_summary rfl rfl (fun hfailures => ⟨hfailures, summary_congr s.status true⟩)
      (fun _ => .inl hw) htext
  | summaryFailed error =>
    rw [hw] at hstep
    obtain ⟨-, rfl⟩ := State.whenFree_eq_some.1 hstep
    have hfailed : s.failures ++ [failure .null "writer_summary" error] ≠ [] := by simp
    exact h.after_summary rfl rfl (fun hfailures => absurd hfailures hfailed)
      (fun hw => .inr (hw.resolve_left Writer.noConfusion)) fun hfailures => absurd hfailures hfailed
  | closing =>
    rw [hw] at hstep htext
    cases outcome <;> cases hstep <;>
      exact h.after_summary rfl rfl (fun hfailures => ⟨hfailures, rfl⟩)
        (fun hw => .inr (hw.resolve_left Writer.noConfusion)) htext
  | closeFailed error =>
    rw [hw] at hstep
    obtain ⟨-, rfl⟩ := State.whenFree_eq_some.1 hstep
    have hfailed : s.failures ++ [failure .null "stream_close" error] ≠ [] := by simp
    exact h.after_summary rfl rfl (fun hfailures => absurd hfailures hfailed)
      (fun hw => .inr (hw.resolve_left Writer.noConfusion)) fun hfailures => absurd hfailures hfailed
  | exiting =>
    rw [hw] at hstep htext
    cases hstep
    exact h.after_summary rfl rfl (fun hfailures => ⟨hfailures, rfl⟩)
      (fun hw => .inr (hw.resolve_left Writer.noConfusion)) htext
  | ended => simp [hw] at hstep

end ReedCode.CaptureWorker
