import ReedCode.CaptureWorker.Complete
import ReedCode.CaptureWorker.Validate
import ReedCode.SpeculativePrefill.ToolPrefix

/-!
# The capture writer loses nothing silently

* `Judged` — a status that says valid was taken after the end of the writer.
* `run_sound` — the invariants of a run.
* `ValidClose` — what is on the stream when `close` returns a valid status.
* `validateCapture_accepts`, `validateCapture_rejects` — validation accepts that file, and no file
  with other event lines.
-/

set_option autoImplicit false

namespace ReedCode.CaptureWorker

/-! ## The close status -/

structure Judged (s : State) : Prop where
  reporting : s.producer = .reporting → s.writer = .ended ∨ s.failures ≠ []
  reported : ∀ {status : Status}, s.producer = .reported status → status.validCapture = true →
    s.writer = .ended ∧ status = s.status
  judged : ∀ {status : Status}, s.producer = .judged status → status.validCapture = true →
    s.writer = .ended ∧ status = s.status ∧ s.summaryWritten = true
  returned : ∀ {result : CloseStatus}, s.producer = .returned result →
    result.status.validCapture = true →
      s.writer = .ended ∧ result = ⟨s.status, false⟩ ∧ s.summaryWritten = true

/-- The producer has not taken its status. -/
def Producer.open : Producer → Bool
  | .reporting | .reported _ | .judged _ | .returned _ => false
  | _ => true

theorem Judged.of_open {s : State} (h : s.producer.open = true) : Judged s where
  reporting hp := by
    rw [hp] at h
    cases h
  reported hp := by
    rw [hp] at h
    cases h
  judged hp := by
    rw [hp] at h
    cases h
  returned hp := by
    rw [hp] at h
    cases h

/-- Once the writer has ended it takes no step. -/
theorem consume_judged {J : Json} {s s' : State} (h : Judged s) {outcome : Outcome}
    (hstep : s.consume J outcome = some s') : Judged s' := by
  have hframe := consume_frame hstep
  have hrunning : s.writer ≠ .ended := by
    intro hw
    simp [State.consume, hw] at hstep
  refine ⟨fun hp => .inr fun hclean => ?_, fun hp hvalid => ?_, fun hp hvalid => ?_,
    fun hp hvalid => ?_⟩
  · rcases h.reporting (hframe.producer ▸ hp) with hended | hfailures
    · exact hrunning hended
    · exact hfailures (List.prefix_nil.1 (hclean ▸ hframe.failures))
  · exact absurd (h.reported (hframe.producer ▸ hp) hvalid).1 hrunning
  · exact absurd (h.judged (hframe.producer ▸ hp) hvalid).1 hrunning
  · exact absurd (h.returned (hframe.producer ▸ hp) hvalid).1 hrunning

theorem status_clean {s : State} (h : s.status.validCapture = true) : s.failures = [] := by
  simp only [State.status, Bool.and_eq_true, List.isEmpty_iff] at h
  exact h.2

theorem produce_judged {J : Json} {s s' : State} (h : Judged s) {now wall : Nat}
    (hstep : s.produce J now wall = some s') : Judged s' := by
  unfold State.produce at hstep
  cases hp : s.producer with
  | starting | idle | returned => simp [hp] at hstep
  | called closing call started =>
    rw [hp] at hstep
    cases hstep
    unfold State.serialize
    dsimp only
    split <;> exact .of_open rfl
  | refused closing started error =>
    rw [hp] at hstep
    cases hstep
    cases closing <;> exact .of_open rfl
  | encoded closing started text =>
    rw [hp] at hstep
    cases hstep
    unfold State.enqueue
    split
    · exact .of_open rfl
    · split <;> exact .of_open rfl
  | counting closing started serialized put =>
    rw [hp] at hstep
    cases hstep
    cases put <;> cases closing <;> exact .of_open rfl
  | closeWritten | closeMarked | joining =>
    rw [hp] at hstep
    cases hstep
    exact .of_open rfl
  | joined =>
    rw [hp] at hstep
    cases hstep
    cases halive : s.alive with
    | true => exact .of_open rfl
    | false =>
      refine ⟨fun _ => .inl ?_, fun hp => (by cases hp), fun hp => (by cases hp),
        fun hp => (by cases hp)⟩
      simpa [State.alive] using halive
  | timedOut =>
    rw [hp] at hstep
    cases hstep
    exact ⟨fun _ => .inr (by simp [State.recordTimeout]), fun hp => (by cases hp),
      fun hp => (by cases hp), fun hp => (by cases hp)⟩
  | reporting =>
    rw [hp] at hstep
    cases hstep
    refine ⟨fun hp => (by cases hp), fun hp' hvalid => ?_, fun hp => (by cases hp),
      fun hp => (by cases hp)⟩
    cases hp'
    exact ⟨(h.reporting hp).resolve_right fun hfailures => hfailures (status_clean hvalid), rfl⟩
  | reported status =>
    rw [hp] at hstep
    cases hstep
    refine ⟨fun hp => (by cases hp), fun hp => (by cases hp), fun hp' hvalid => ?_,
      fun hp => (by cases hp)⟩
    cases hp'
    simp only [Bool.and_eq_true] at hvalid
    obtain ⟨hended, rfl⟩ := h.reported hp hvalid.1.1
    refine ⟨hended, ?_, hvalid.1.2⟩
    have hsame : (s.status.validCapture && s.status.summaryWritten && !s.alive) =
        s.status.validCapture := by
      rw [hvalid.1.1, hvalid.1.2, hvalid.2]
      rfl
    simp only [hsame]
    rfl
  | judged status =>
    rw [hp] at hstep
    cases hstep
    refine ⟨fun hp => (by cases hp), fun hp => (by cases hp), fun hp => (by cases hp),
      fun hp' hvalid => ?_⟩
    cases hp'
    obtain ⟨hended, rfl, hwritten⟩ := h.judged hp hvalid
    refine ⟨hended, ?_, hwritten⟩
    simp only [State.alive, hended]
    rfl

/-! ## Runs -/

structure Sound (J : Json) (s : State) : Prop where
  accounted : Accounted s
  phased : Phased s
  recorded : Recorded J s
  streamed : Streamed J s
  judged : Judged s

theorem sound_new {J : Json} {processId : String} {pid capacity : Nat} {s : State}
    (h : State.new processId pid capacity = .ok s) : Sound J s := by
  have haccounted := accounted_new h
  unfold State.new at h
  split at h
  · cases h
  · cases h
    refine ⟨haccounted, ⟨rfl, rfl, fun h => (by cases h), fun h => (by cases h)⟩, ?_, ?_, .of_open rfl⟩
    · exact ⟨rfl, rfl, fun h => (by cases h), fun _ => rfl, fun h => absurd rfl h,
        fun h => (by cases h), fun h => (by cases h), fun h => (by cases h), fun _ h => (by cases h)⟩
    · exact ⟨fun _ _ => rfl, fun h => (by cases h), fun h => (by cases h), fun _ => rfl,
        fun h => h.elim Writer.noConfusion Bool.noConfusion⟩

theorem sound_call {J : Json} {s : State} (h : Sound J s)
    (hp : s.producer = .starting ∨ s.producer = .idle) {closing : Bool} {call : Call}
    (hstart : s.producer = .starting → call = captureStart)
    (hclose : closing = true → call = captureClose) (now : Nat) :
    Sound J (s.call closing call now) := by
  have hphased := phased_call h.phased hp closing call now
  refine ⟨accounted_call h.accounted hp closing call now, hphased,
    recorded_call h.recorded hp hstart hclose now, ?_, .of_open rfl⟩
  have hframe : Produced s (s.call closing call now) :=
    ⟨rfl, rfl, rfl, rfl, rfl, rfl, rfl, List.prefix_refl _⟩
  refine streamed_produced h.streamed hframe fun hdrained _ => ?_
  have hstop : s.stop = false := by
    rw [h.phased.stop]
    rcases hp with hp | hp <;> rw [hp] <;> rfl
  rw [(h.phased.drained hdrained).1] at hstop
  cases hstop

/-- **Every step of either thread keeps the invariants.** -/
theorem step_sound {J : Json} {s s' : State} (h : Sound J s) {action : Action}
    (hstep : step J s action = some s') : Sound J s' := by
  cases action with
  | start now =>
    simp only [step, Option.ite_none_right_eq_some, Option.some.injEq] at hstep
    obtain ⟨hp, rfl⟩ := hstep
    exact sound_call h (.inl hp) (fun _ => rfl) (fun hclosing : false = true => (by cases hclosing)) now
  | write call now =>
    simp only [step, Option.ite_none_right_eq_some, Option.some.injEq] at hstep
    obtain ⟨hp, rfl⟩ := hstep
    refine sound_call h (.inr hp) (fun hstart => ?_) (fun hclosing : false = true => (by cases hclosing)) now
    rw [hp] at hstart
    cases hstart
  | close now =>
    simp only [step, Option.ite_none_right_eq_some, Option.some.injEq] at hstep
    obtain ⟨hp, rfl⟩ := hstep
    have hclosed : s.closed = false := by
      rw [h.phased.closed, hp]
      rfl
    rw [hclosed, if_neg Bool.false_ne_true]
    refine sound_call h (.inr hp) (fun hstart => ?_) (fun _ => rfl) now
    rw [hp] at hstart
    cases hstart
  | produce now wall =>
    exact ⟨produce_accounted h.accounted hstep, produce_phased h.phased hstep,
      produce_recorded h.recorded hstep, produce_streamed h.phased h.streamed hstep,
      produce_judged h.judged hstep⟩
  | consume outcome =>
    exact ⟨consume_accounted h.accounted hstep, consume_phased h.phased hstep,
      consume_recorded h.recorded hstep, consume_streamed h.streamed hstep,
      consume_judged h.judged hstep⟩

theorem run_sound {J : Json} {processId : String} {pid capacity : Nat} {start s : State}
    {actions : List Action} (hnew : State.new processId pid capacity = .ok start)
    (hrun : Runs.run (step J) start actions = some s) : Sound J s :=
  Runs.run_induction (fun _ _ _ h hstep => step_sound h hstep) (sound_new hnew) hrun

/-! ## A valid close -/

/-- The lines of a file. -/
def fileOf (lines : List Text) : Text := (lines.map (· ++ ['\n'])).flatten

/-- The state behind a valid close: every record has its line, in order, and then comes the
summary. -/
structure ValidClose (J : Json) (s : State) (result : CloseStatus) (texts : List Text)
    (footer : Text) : Prop where
  result : result = ⟨s.status, false⟩
  failures : s.failures = []
  closed : s.closed = true
  summaryWritten : s.summaryWritten = true
  length : s.history.records.length = s.sequence
  queued : s.queued = s.sequence
  persisted : s.persisted = s.sequence
  failed : s.failed = 0
  dropped : s.dropped = 0
  dumped : s.history.records.map J.dumps = texts.map .ok
  summary : J.dumps s.status.summary = .ok footer
  stream : s.stream = fileOf (texts ++ [footer])

/-- The lines of the entries are those of the records. -/
theorem texts_of_entries {J : Json} {records : List Value} {entries : List Entry}
    (hnumbers : entries.map Prod.fst = List.range' 1 records.length)
    (hlines : ∀ entry ∈ entries, LineOf J records entry) :
    ∃ texts : List Text, records.map J.dumps = texts.map .ok ∧
      entries.map Prod.snd = texts.map (· ++ ['\n']) := by
  refine ⟨entries.map fun entry => entry.2.dropLast, List.ext_getElem? fun i => ?_, ?_⟩
  · have hlength : entries.length = records.length := by
      simpa using congrArg List.length hnumbers
    rw [List.getElem?_map, List.getElem?_map, List.getElem?_map]
    cases hentry : entries[i]? with
    | none =>
      rw [List.getElem?_eq_none_iff, hlength, ← List.getElem?_eq_none_iff] at hentry
      rw [hentry]
      rfl
    | some entry =>
      have hbound : i < records.length := hlength ▸ (List.getElem?_eq_some_iff.1 hentry).1
      have hnumber : entry.1 = i + 1 := by
        have hat := congrArg (fun numbers => numbers[i]?) hnumbers
        simp only [List.getElem?_map, hentry, Option.map_some,
          List.getElem?_range' hbound] at hat
        have heq := Option.some.inj hat
        omega
      obtain ⟨record, text, hrecord, hdumps, htext⟩ :=
        hlines entry (List.mem_of_getElem? hentry)
      rw [hnumber, Nat.add_sub_cancel] at hrecord
      simp [hrecord, hdumps, htext]
  · rw [List.map_map]
    refine List.map_congr_left fun entry hentry => ?_
    obtain ⟨-, text, -, -, htext⟩ := hlines entry hentry
    simp [htext]

theorem validClose_of_sound {J : Json} {s : State} (h : Sound J s) {result : CloseStatus}
    (hp : s.producer = .returned result) (hvalid : result.status.validCapture = true) :
    ∃ texts footer, ValidClose J s result texts footer := by
  obtain ⟨hended, rfl, hwritten⟩ := h.judged.returned hp hvalid
  have hclean := status_clean hvalid
  obtain ⟨hdropped, hfailed⟩ := h.accounted.clean hclean
  obtain ⟨-, hqueue⟩ := h.phased.drained (by rw [hended]; rfl)
  have hhand : s.writer.hand = [] := by rw [hended]; rfl
  have hplaced : s.ledger.placed = s.sequence := by
    unfold State.ledger
    rw [hp]
    rfl
  have hclosed : s.closed = true := by
    rw [h.phased.closed, hp]
    rfl
  have hlength : s.history.records.length = s.sequence := by
    have hrecords := h.recorded.records
    rwa [hp] at hrecords
  -- everything that was put is persisted
  have hline : s.ledger.line = s.history.persisted := by
    simp [Ledger.line, State.ledger, hhand, hqueue]
  have hnumbers := h.accounted.balanced.inOrder hdropped hfailed
  rw [hline, hplaced, ← hlength] at hnumbers
  have hcount : s.history.persisted.length = s.sequence := by
    rw [← hlength]
    simpa using congrArg List.length hnumbers
  obtain ⟨texts, htexts, hlines⟩ := texts_of_entries hnumbers fun entry hentry =>
    h.recorded.line entry (hline ▸ hentry)
  obtain ⟨⟨summary, line⟩, hsummary⟩ :=
    Option.isSome_iff_exists.1 (h.streamed.flushed (.inr hwritten))
  obtain ⟨rfl, footer, hfooter, rfl⟩ := h.streamed.summary hsummary hclean
  refine ⟨texts, footer, rfl, hclean, hclosed, hwritten, hlength, ?_, ?_, ?_, ?_, htexts, hfooter, ?_⟩
  · have hqueued := h.accounted.balanced.queued
    simp only [State.ledger, hp, Producer.uncounted, hqueue, hhand, hfailed, hcount,
      List.length_nil] at hqueued
    omega
  · exact h.accounted.balanced.persisted.trans hcount
  · exact h.accounted.balanced.failed.trans (congrArg List.length hfailed)
  · exact h.accounted.balanced.dropped.trans (congrArg List.length hdropped)
  · have htext := h.streamed.text hclean (by rw [hended]; rfl)
    have hnone : s.writer.written = [] := by rw [hended]; rfl
    rw [htext, State.written, hnone, List.append_nil, hlines, hsummary]
    simp [fileOf]

/-! ## Records of plain calls -/

/-- What `json.loads` gives back, and lines that stay lines. -/
structure Json.Lawful (J : Json) : Prop where
  loads_dumps : ∀ {value : Value} {text : Text}, J.dumps value = .ok text → J.loads text = .ok value
  loads_line : ∀ {value : Value} {text : Text}, J.dumps value = .ok text →
    J.loads (text ++ ['\n']) = .ok value
  oneLine : ∀ {value : Value} {text : Text}, J.dumps value = .ok text →
    ∀ c ∈ text, Lines.lineBreak c = false

/-- A call as the wrappers make it: the summary is left to the writer, and no field takes the name
of one that `write` sets. -/
def Call.Plain (call : Call) : Prop :=
  call.kind ≠ "writer_summary" ∧
    ∀ f ∈ call.fields, f.1 ≠ "kind" ∧ f.1 ≠ "sequence" ∧ f.1 ≠ "capture_process_id"

theorem lookup_insertEntry {key k : String} {v : Value} (h : k ≠ key) :
    ∀ entries : List (String × Value),
      (FinMap.insertEntry k v entries).lookup key = entries.lookup key
  | [] => by simp [FinMap.insertEntry, List.lookup_cons, beq_eq_false_iff_ne.2 (Ne.symm h)]
  | (k', v') :: entries => by
    by_cases hk : k' = k
    · subst hk
      simp [FinMap.insertEntry, List.lookup_cons, beq_eq_false_iff_ne.2 (Ne.symm h)]
    · simp only [FinMap.insertEntry, hk, if_false, List.lookup_cons, lookup_insertEntry h entries]

theorem lookup_update {key : String} : ∀ {fields base : List (String × Value)},
    (∀ f ∈ fields, f.1 ≠ key) → (update base fields).lookup key = base.lookup key
  | [], _, _ => rfl
  | f :: fields, base, h => by
    have hrest : (update (FinMap.insertEntry f.1 f.2 base) fields).lookup key =
        (FinMap.insertEntry f.1 f.2 base).lookup key :=
      lookup_update fun f' hf => h f' (List.mem_cons_of_mem f hf)
    exact hrest.trans (lookup_insertEntry (h f List.mem_cons_self) base)

/-- A field that the call does not name is the one `write` sets. -/
theorem record_get {call : Call} {key : String} (h : ∀ f ∈ call.fields, f.1 ≠ key)
    (processId : String) (pid n monotonic wall : Nat) :
    (call.record processId pid n monotonic wall).get key =
      (Call.record ⟨call.kind, []⟩ processId pid n monotonic wall).get key :=
  congrArg (fun field => field.getD .null) (lookup_update h)

theorem Call.Plain.kind {call : Call} (h : call.Plain) (processId : String)
    (pid n monotonic wall : Nat) :
    (call.record processId pid n monotonic wall).get "kind" = .str call.kind :=
  (record_get (fun f hf => (h.2 f hf).1) ..).trans rfl

theorem Call.Plain.sequence {call : Call} (h : call.Plain) (processId : String)
    (pid n monotonic wall : Nat) :
    (call.record processId pid n monotonic wall).get "sequence" = .int n :=
  (record_get (fun f hf => (h.2 f hf).2.1) ..).trans rfl

theorem Call.Plain.processId {call : Call} (h : call.Plain) (processId : String)
    (pid n monotonic wall : Nat) :
    (call.record processId pid n monotonic wall).get "capture_process_id" = .str processId :=
  (record_get (fun f hf => (h.2 f hf).2.2) ..).trans rfl

/-! ## Sequences of numbers -/

theorem normItems_ints : ∀ ns : List Nat,
    Value.normItems (ns.map fun n : Nat => Value.int n) =
      some (ns.map fun n : Nat => Value.float ((n : Int) : Rat))
  | [] => rfl
  | n :: ns => by
    rw [List.map_cons, Value.normItems, normItems_ints ns]
    rfl

theorem pyEq_ints {ms ns : List Nat} :
    (Value.list (ms.map fun n : Nat => Value.int n)).pyEq
      (.list (ns.map fun n : Nat => Value.int n)) = true ↔ ms = ns := by
  have hinj : Function.Injective fun n : Nat => Value.float ((n : Int) : Rat) := fun m n h => by
    simpa using h
  rw [Value.pyEq_iff, Value.norm, Value.norm, normItems_ints, normItems_ints]
  constructor
  · rintro ⟨v, hm, hn⟩
    have heq := hm.trans hn.symm
    simp only [Option.map_some, Option.some.injEq, Value.list.injEq] at heq
    exact List.map_injective_iff.2 hinj heq
  · rintro rfl
    exact ⟨_, rfl, rfl⟩

theorem pyEq_str {a b : String} : (Value.str a).pyEq (.str b) = true ↔ a = b := by
  rw [Value.pyEq_iff, Value.norm, Value.norm]
  constructor
  · rintro ⟨v, ha, hb⟩
    simpa using ha.trans hb.symm
  · rintro rfl
    exact ⟨_, rfl, rfl⟩

/-! ## The rows of a valid close -/

/-- The rows of a capture whose calls are plain. -/
structure Rows (processId : String) (records : List Value) : Prop where
  object : ∀ row ∈ records, row.isObject = true
  kind : ∀ row ∈ records, isSummary row = false
  process : ∀ row ∈ records, row.get "capture_process_id" = .str processId
  sequence : ∀ {i : Nat} {row : Value}, records[i]? = some row → row.get "sequence" = .int (i + 1 : Nat)
  start : kindIs records.head? "capture_start" = true
  close : kindIs records.getLast? "capture_close" = true

theorem captureStart_plain : captureStart.Plain := by
  unfold Call.Plain
  decide

theorem captureClose_plain : captureClose.Plain := by
  unfold Call.Plain
  decide

theorem rows_of_plain {J : Json} {s : State} (h : Recorded J s)
    (hlength : s.history.records.length = s.sequence) (hclosing : s.producer.closing = true)
    (hstarted : s.producer ≠ .starting) (hplain : ∀ call ∈ s.history.calls, call.Plain) :
    Rows s.processId s.history.records := by
  have hof {i : Nat} {row : Value} (hrow : s.history.records[i]? = some row) :
      ∃ call, s.history.calls[i]? = some call ∧ call.Plain ∧ ∃ monotonic wall,
        row = call.record s.processId s.pid (i + 1) monotonic wall := by
    obtain ⟨call, monotonic, wall, hcall, hrecord⟩ := h.record hrow
    exact ⟨call, hcall, hplain call (List.mem_of_getElem? hcall), monotonic, wall, hrecord⟩
  have hcalls : s.history.calls.length = s.history.records.length := h.calls.trans hlength.symm
  refine ⟨fun row hrow => ?_, fun row hrow => ?_, fun row hrow => ?_, fun {i row} hrow => ?_, ?_, ?_⟩
  · obtain ⟨i, hi⟩ := List.mem_iff_getElem?.1 hrow
    obtain ⟨call, -, -, monotonic, wall, rfl⟩ := hof hi
    rfl
  · obtain ⟨i, hi⟩ := List.mem_iff_getElem?.1 hrow
    obtain ⟨call, -, hcall, monotonic, wall, rfl⟩ := hof hi
    rw [isSummary, hcall.kind, Bool.eq_false_iff]
    exact fun heq => hcall.1 (pyEq_str.1 heq)
  · obtain ⟨i, hi⟩ := List.mem_iff_getElem?.1 hrow
    obtain ⟨call, -, hcall, monotonic, wall, rfl⟩ := hof hi
    exact hcall.processId ..
  · obtain ⟨call, -, hcall, monotonic, wall, rfl⟩ := hof hrow
    exact hcall.sequence ..
  · have hfirst : s.history.calls[0]? = some captureStart := by
      rw [← List.head?_eq_getElem?]
      exact h.first hstarted
    have hbound := (List.getElem?_eq_some_iff.1 hfirst).1
    obtain ⟨row, hrow⟩ : ∃ row, s.history.records[0]? = some row :=
      ⟨_, List.getElem?_eq_getElem (hcalls ▸ hbound)⟩
    obtain ⟨call, hcall, hplain', monotonic, wall, rfl⟩ := hof hrow
    cases hfirst.symm.trans hcall
    rw [List.head?_eq_getElem?, hrow]
    exact pyEq_str.2 rfl
  · have hlast : s.history.calls[s.history.calls.length - 1]? = some captureClose := by
      rw [← List.getLast?_eq_getElem?]
      exact h.last hclosing
    have hbound := (List.getElem?_eq_some_iff.1 hlast).1
    obtain ⟨row, hrow⟩ : ∃ row, s.history.records[s.history.calls.length - 1]? = some row :=
      ⟨_, List.getElem?_eq_getElem (hcalls ▸ hbound)⟩
    obtain ⟨call, hcall, hplain', monotonic, wall, rfl⟩ := hof hrow
    cases hlast.symm.trans hcall
    rw [List.getLast?_eq_getElem?, ← hcalls, hrow]
    exact pyEq_str.2 rfl

theorem Rows.numbers {processId : String} {records : List Value} (h : Rows processId records) :
    records.map (fun row => row.get "sequence") =
      (List.range' 1 records.length).map fun i : Nat => .int i := by
  refine List.ext_getElem? fun i => ?_
  rw [List.getElem?_map, List.getElem?_map]
  cases hi : records[i]? with
  | none => rw [List.getElem?_eq_none (by simpa using List.getElem?_eq_none_iff.1 hi)]; rfl
  | some row =>
    have hbound := (List.getElem?_eq_some_iff.1 hi).1
    rw [List.getElem?_range' hbound, Option.map_some, Option.map_some, h.sequence hi, Nat.add_comm]
    simp

/-! ## What validation says -/

/-- A report of a capture with `n` records and without a failure. -/
structure Clean (n : Nat) (status : Status) : Prop where
  attempted : status.attemptedRecords = n
  queued : status.queuedRecords = n
  persisted : status.persistedRecords = n
  failed : status.failedWrites = 0
  dropped : status.droppedRecords = 0
  pending : status.pendingRecords = 0
  failures : status.failures = []
  valid : status.validCapture = true

theorem clean_reported {n : Nat} {status : Status} (h : Clean n status) {report : Value}
    (hreport : ∀ name ∈ ["attempted_records", "queued_records", "persisted_records",
      "failed_writes", "dropped_records", "pending_records", "failures"],
      report.get name = (Value.dict status.fields).get name) : Reported n report := by
  have hof (name : String) {value : Value} (hname : name ∈ ["attempted_records", "queued_records",
      "persisted_records", "failed_writes", "dropped_records", "pending_records", "failures"])
      (hvalue : (Value.dict status.fields).get name = value) : report.get name = value :=
    (hreport name hname).trans hvalue
  refine ⟨?_, ?_, ?_⟩
  · simp only [List.mem_cons, List.not_mem_nil, or_false, forall_eq_or_imp, forall_eq]
    exact ⟨hof "attempted_records" (by simp)
        (congrArg (fun n : Nat => Value.int n) h.attempted),
      hof "queued_records" (by simp)
        (congrArg (fun n : Nat => Value.int n) h.queued),
      hof "persisted_records" (by simp)
        (congrArg (fun n : Nat => Value.int n) h.persisted)⟩
  · simp only [List.mem_cons, List.not_mem_nil, or_false, forall_eq_or_imp, forall_eq]
    exact ⟨hof "failed_writes" (by simp)
        (congrArg (fun n : Nat => Value.int n) h.failed),
      hof "dropped_records" (by simp)
        (congrArg (fun n : Nat => Value.int n) h.dropped),
      hof "pending_records" (by simp) (congrArg Value.int h.pending)⟩
  · rw [hof "failures" (by simp) (congrArg Value.list h.failures)]
    decide

theorem ValidClose.clean {J : Json} {s : State} {result : CloseStatus} {texts : List Text}
    {footer : Text} (h : ValidClose J s result texts footer) : Clean s.sequence s.status where
  attempted := rfl
  queued := h.queued
  persisted := h.persisted
  failed := h.failed
  dropped := h.dropped
  pending := by simp [State.status, h.queued, h.persisted, h.failed]
  failures := h.failures
  valid := by simp [State.status, h.closed, h.failures, h.queued, h.persisted, h.failed]

theorem isSummary_summary (status : Status) : isSummary status.summary = true := by
  rw [summary_eq]
  exact pyEq_str.2 rfl

theorem summary_processId (status : Status) :
    status.summary.get "capture_process_id" = .str status.captureProcessId := by
  rw [summary_eq]
  rfl

theorem summary_valid (status : Status) :
    status.summary.get "valid_capture" = .bool status.validCapture := by
  rw [summary_eq]
  rfl

theorem summary_get {status : Status} {name : String} (h : name ∈ ["attempted_records",
    "queued_records", "persisted_records", "failed_writes", "dropped_records", "pending_records",
    "failures"]) : status.summary.get name = (Value.dict status.fields).get name := by
  rw [summary_eq, Status.fields]
  simp only [List.mem_cons, List.not_mem_nil, or_false] at h
  rcases h with rfl | rfl | rfl | rfl | rfl | rfl | rfl <;> rfl

theorem accepted_of_valid {J : Json} {s : State} {result : CloseStatus} {texts : List Text}
    {footer : Text} (h : ValidClose J s result texts footer) (hid : s.processId ≠ "")
    (hrows : Rows s.processId s.history.records) :
    Accepted result.value s.history.records s.status.summary s.processId := by
  obtain rfl := h.result
  have hclean := h.clean
  have hvalid : (CloseStatus.value ⟨s.status, false⟩).get "valid_capture" = .bool true :=
    congrArg Value.bool hclean.valid
  refine ⟨rfl, hvalid, congrArg Value.bool h.summaryWritten, rfl, fun row hrow => ?_,
    (summary_valid _).trans (congrArg Value.bool hclean.valid), hrows.start, hrows.close, rfl, hid,
    fun row hrow => ?_, ?_, ?_, ?_⟩
  · rcases List.mem_append.1 hrow with hrow | hrow
    · exact hrows.object row hrow
    · rw [List.mem_singleton.1 hrow, summary_eq]
      rfl
  · rcases List.mem_append.1 hrow with hrow | hrow
    · rw [hrows.process row hrow]
      exact pyEq_str.2 rfl
    · rw [List.mem_singleton.1 hrow, summary_processId]
      exact pyEq_str.2 rfl
  · rw [hrows.numbers]
    exact pyEq_ints.2 rfl
  · rw [h.length]
    refine clean_reported hclean fun name _ => ?_
    rw [CloseStatus.value, if_neg Bool.false_ne_true, List.append_nil]
  · rw [h.length]
    exact clean_reported hclean fun name hname => summary_get hname

/-- The numbers of rows that are records. -/
theorem exists_numbers {processId : String} {records : List Value}
    (hrows : Rows processId records) : ∀ {events : List Value}, (∀ row ∈ events, row ∈ records) →
      ∃ numbers : List Nat, events.map some = numbers.map (fun n => records[n - 1]?) ∧
        events.map (fun row => row.get "sequence") = numbers.map fun n : Nat => .int n
  | [], _ => ⟨[], rfl, rfl⟩
  | row :: events, h => by
    obtain ⟨i, hi⟩ := List.mem_iff_getElem?.1 (h row List.mem_cons_self)
    obtain ⟨numbers, hfound, hnumbers⟩ :=
      exists_numbers hrows fun row' hrow => h row' (List.mem_cons_of_mem row hrow)
    refine ⟨(i + 1) :: numbers, ?_, ?_⟩
    · rw [List.map_cons, List.map_cons, hfound, Nat.add_sub_cancel, hi]
    · rw [List.map_cons, List.map_cons, hnumbers, hrows.sequence hi]

/-- Rows that are accepted in front of the same summary are the records. -/
theorem rows_unique {s : State} {status : Value} {events : List Value} {processId : String}
    (hlength : s.history.records.length = s.sequence) (hrows : Rows s.processId s.history.records)
    (hevents : ∀ row ∈ events, row ∈ s.history.records)
    (h : Accepted status events s.status.summary processId) : events = s.history.records := by
  have hcount : events.length = s.history.records.length := by
    have hattempted := h.footerReport.1 "attempted_records" (by simp)
    rw [summary_eq] at hattempted
    have heq : ((s.sequence : Nat) : Int) = (events.length : Nat) := Value.int.inj hattempted
    omega
  obtain ⟨numbers, hfound, hnumbers⟩ := exists_numbers hrows hevents
  have hsequence := h.sequence
  rw [hnumbers, pyEq_ints, hcount] at hsequence
  have hall : s.history.records.map some =
      (List.range' 1 s.history.records.length).map fun n => s.history.records[n - 1]? := by
    refine List.ext_getElem? fun i => ?_
    rw [List.getElem?_map, List.getElem?_map]
    cases hi : s.history.records[i]? with
    | none => rw [List.getElem?_eq_none (by simpa using List.getElem?_eq_none_iff.1 hi)]; rfl
    | some row =>
      have hbound := (List.getElem?_eq_some_iff.1 hi).1
      simp [List.getElem?_range' hbound, hi]
  rw [hsequence, ← hall] at hfound
  exact List.map_injective_iff.2 (Option.some_injective Value) hfound

/-! ## Files -/

/-- What was dumped is loaded again. -/
theorem loads_of_dumped {J : Json} (hJ : J.Lawful) : ∀ {values : List Value} {texts : List Text},
    values.map J.dumps = texts.map .ok → texts.map J.loads = values.map .ok
  | [], [], _ => rfl
  | [], _ :: _, h => by cases h
  | _ :: _, [], h => by cases h
  | value :: values, text :: texts, h => by
    simp only [List.map_cons, List.cons.injEq] at h ⊢
    exact ⟨hJ.loads_dumps h.1, loads_of_dumped hJ h.2⟩

/-- Lines that are lines of the records belong to some of them. -/
theorem exists_records {J : Json} {records : List Value} {texts : List Text}
    (hdumped : records.map J.dumps = texts.map .ok) : ∀ {lines : List Text},
    (∀ line ∈ lines, line ∈ texts) → ∃ events : List Value, (∀ row ∈ events, row ∈ records) ∧
      events.map J.dumps = lines.map .ok
  | [], _ => ⟨[], fun _ h => (by cases h), rfl⟩
  | line :: lines, h => by
    obtain ⟨record, hrecord, hdumps⟩ : ∃ record ∈ records, J.dumps record = .ok line := by
      have hline : Except.ok line ∈ records.map J.dumps := by
        rw [hdumped]
        exact List.mem_map_of_mem (h line List.mem_cons_self)
      simpa using hline
    obtain ⟨events, hmem, hdumped'⟩ :=
      exists_records hdumped fun line' hline => h line' (List.mem_cons_of_mem line hline)
    refine ⟨record :: events, List.forall_mem_cons.2 ⟨hrecord, hmem⟩, ?_⟩
    rw [List.map_cons, List.map_cons, hdumped', hdumps]

theorem splitlines_fileOf {J : Json} (hJ : J.Lawful) {lines : List Text} {values : List Value}
    (h : values.map J.dumps = lines.map .ok) : Lines.splitlines (fileOf lines) = lines := by
  refine Lines.splitlines_flatten fun line hline => ?_
  have hmem : Except.ok line ∈ values.map J.dumps := by
    rw [h]
    exact List.mem_map_of_mem hline
  obtain ⟨value, -, hdumps⟩ := List.mem_map.1 hmem
  exact hJ.oneLine hdumps

/-- The two files of a valid close: the lines with the summary behind them, and the status. -/
structure Files (J : Json) (read : String → Except String Text) (path : String)
    (result : CloseStatus) (lines : List Text) : Prop where
  events : read path = .ok (fileOf lines)
  status : ∃ text, J.dumps result.value = .ok text ∧ read (path ++ ".close.json") = .ok (text ++ ['\n'])

/-- Validation of such files is that of their rows. -/
theorem validateCapture_files {J : Json} (hJ : J.Lawful) {read : String → Except String Text}
    {path : String} {result : CloseStatus} {lines : List Text} {rows : List Value}
    (h : Files J read path result lines)
    (hdumps : rows.map J.dumps = lines.map .ok) {report : Value} :
    validateCapture J read path none = .ok report ↔
      ∃ accepted, validateRows result.value rows = .ok accepted ∧ report =
        .dict [("valid_capture", .bool true), ("capture_process_id", .str accepted.1),
          ("event_records", .int accepted.2), ("events_path", .str path),
          ("close_status_path", .str (path ++ ".close.json"))] := by
  obtain ⟨text, htext, hstatus⟩ := h.status
  have hrows : lines.mapM J.loads = .ok rows := Except.mapM_eq_ok.2 (loads_of_dumped hJ hdumps)
  have hlines := splitlines_fileOf hJ hdumps
  unfold validateCapture
  simp only [hstatus, h.events, Except.bind_eq_ok_iff, Except.ok.injEq, exists_eq_left',
    hJ.loads_line htext, hlines, hrows, pure, Except.pure]
  exact ⟨fun ⟨accepted, hok, heq⟩ => ⟨accepted, hok, heq.symm⟩,
    fun ⟨accepted, hok, heq⟩ => ⟨accepted, hok, heq.symm⟩⟩

/-- **Validation accepts the file of a valid close.** -/
theorem validateCapture_accepts {J : Json} (hJ : J.Lawful) {s : State} {result : CloseStatus}
    {texts : List Text} {footer : Text} (h : ValidClose J s result texts footer)
    (hid : s.processId ≠ "") (hrows : Rows s.processId s.history.records)
    {read : String → Except String Text} {path : String}
    (hfiles : Files J read path result (texts ++ [footer])) :
    ∃ report, validateCapture J read path none = .ok report := by
  have hdumped : (s.history.records ++ [s.status.summary]).map J.dumps =
      (texts ++ [footer]).map .ok := by
    simp [h.dumped, h.summary]
  have haccepted : validateRows result.value (s.history.records ++ [s.status.summary]) =
      .ok (s.processId, s.history.records.length) :=
    (validateRows_eq_ok hrows.kind (isSummary_summary s.status)).2
      ⟨accepted_of_valid h hid hrows, rfl⟩
  exact ⟨_, (validateCapture_files hJ hfiles hdumped).2 ⟨_, haccepted, rfl⟩⟩

/-- **Validation rejects any other event lines**, taken from those of the capture. -/
theorem validateCapture_rejects {J : Json} (hJ : J.Lawful) {s : State} {result : CloseStatus}
    {texts : List Text} {footer : Text} (h : ValidClose J s result texts footer)
    (hrows : Rows s.processId s.history.records) {lines : List Text}
    (hlines : ∀ line ∈ lines, line ∈ texts) (hne : lines ≠ texts)
    {read : String → Except String Text} {path : String}
    (hfiles : Files J read path result (lines ++ [footer])) :
    ∃ error, validateCapture J read path none = .error error := by
  obtain ⟨events, hmem, hdumped⟩ := exists_records h.dumped hlines
  have hdumped' : (events ++ [s.status.summary]).map J.dumps = (lines ++ [footer]).map .ok := by
    simp [hdumped, h.summary]
  cases hvalidate : validateCapture J read path none with
  | error error => exact ⟨error, rfl⟩
  | ok report =>
    obtain ⟨accepted, hrowsOk, -⟩ := (validateCapture_files hJ hfiles hdumped').1 hvalidate
    have haccepted := ((validateRows_eq_ok (fun row hrow => hrows.kind row (hmem row hrow))
      (isSummary_summary s.status)).1 hrowsOk).1
    have hevents := rows_unique h.length hrows hmem haccepted
    -- the rows are the records, so the lines are theirs
    rw [hevents, h.dumped] at hdumped
    exact absurd (List.map_injective_iff.2 (fun _ _ heq => Except.ok.inj heq) hdumped).symm hne

/-- The lines of the records are all different. -/
theorem texts_nodup {J : Json} (hJ : J.Lawful) {processId : String} {records : List Value}
    (hrows : Rows processId records) {texts : List Text}
    (hdumped : records.map J.dumps = texts.map .ok) : texts.Nodup := by
  have hnumbers : (records.map fun row => row.get "sequence").Nodup := by
    rw [hrows.numbers]
    exact (List.nodup_range' 1 Nat.one_pos).map fun m n h => by simpa using h
  have hloads : (texts.map J.loads).Nodup := by
    rw [loads_of_dumped hJ hdumped]
    exact (List.Nodup.of_map _ hnumbers).map fun _ _ h => Except.ok.inj h
  exact List.Nodup.of_map _ hloads

/-! ## The result -/

theorem run_ids {J : Json} {start s : State} {actions : List Action}
    (hrun : Runs.run (step J) start actions = some s) :
    s.processId = start.processId ∧ s.pid = start.pid := by
  refine Runs.run_induction (P := fun s => s.processId = start.processId ∧ s.pid = start.pid)
    (fun s action s' h hstep => ?_) ⟨rfl, rfl⟩ hrun
  cases action with
  | start now | write call now =>
    simp only [step, Option.ite_none_right_eq_some, Option.some.injEq] at hstep
    obtain ⟨-, rfl⟩ := hstep
    exact h
  | close now =>
    simp only [step, Option.ite_none_right_eq_some, Option.some.injEq] at hstep
    obtain ⟨-, rfl⟩ := hstep
    split <;> exact h
  | produce now wall =>
    have hframe := produce_frame hstep
    exact ⟨hframe.processId.trans h.1, hframe.pid.trans h.2⟩
  | consume outcome =>
    have hframe := consume_frame hstep
    exact ⟨hframe.processId.trans h.1, hframe.pid.trans h.2⟩

/-- One call between the constructor's and that of `close`; the writer takes its entry before it is
counted. -/
def exampleActions : List Action :=
  [.start 1, .produce 2 3, .produce 4 5, .produce 6 7] ++ List.replicate 5 (.consume .ok) ++
    [.write ⟨"engine_link", [("capture_id", .str "c")]⟩ 10, .produce 11 12, .produce 13 14,
      .consume .ok, .produce 15 16, .consume .ok, .consume .ok, .close 20] ++
    List.replicate 6 (.produce 21 22) ++ List.replicate 12 (.consume .ok) ++
    List.replicate 4 (.produce 30 30)

def exampleStart : State :=
  ⟨"p", 7, 2, 0, [], false, false, false, 0, 0, 0, 0, [], [], [], .starting, .loop,
    ⟨[], [], [], [], [], none⟩⟩

/-- The state behind the run, where every value is dumped. -/
@[irreducible] def exampleState : State :=
  (Runs.run (step ⟨fun value => .ok (SpeculativePrefill.jsonText value), fun _ => .error ""⟩)
    exampleStart exampleActions).getD exampleStart

def exampleResult : CloseStatus := ⟨exampleState.status, false⟩

def exampleValues : List Value :=
  exampleState.history.records ++ [exampleState.status.summary, exampleResult.value]

/-- The values of the run; any other one is refused. -/
def exampleJson : Json where
  dumps value :=
    if value ∈ exampleValues then .ok (SpeculativePrefill.jsonText value) else .error "TypeError"
  loads text :=
    match exampleValues.find? fun value =>
      SpeculativePrefill.jsonText value = text ∨ SpeculativePrefill.jsonText value ++ ['\n'] = text with
    | some value => .ok value
    | none => .error "JSONDecodeError"

theorem exampleJson_lawful : exampleJson.Lawful := by
  have hloads : ∀ value ∈ exampleValues,
      exampleJson.loads (SpeculativePrefill.jsonText value) = .ok value ∧
        exampleJson.loads (SpeculativePrefill.jsonText value ++ ['\n']) = .ok value ∧
          (SpeculativePrefill.jsonText value).all (fun c => !Lines.lineBreak c) = true := by
    decide +kernel
  have hdumps {value : Value} {text : Text} (h : exampleJson.dumps value = .ok text) :
      value ∈ exampleValues ∧ SpeculativePrefill.jsonText value = text := by
    simp only [exampleJson] at h
    split at h
    · rename_i hmem
      exact ⟨hmem, Except.ok.inj h⟩
    · cases h
  refine ⟨fun h => ?_, fun h => ?_, fun h => ?_⟩
  · obtain ⟨hmem, rfl⟩ := hdumps h
    exact (hloads _ hmem).1
  · obtain ⟨hmem, rfl⟩ := hdumps h
    exact (hloads _ hmem).2.1
  · obtain ⟨hmem, rfl⟩ := hdumps h
    simpa using List.all_eq_true.1 (hloads _ hmem).2.2

def exampleRead (lines : List Text) (path : String) : Except String Text :=
  if path = "engine.jsonl" then .ok (fileOf lines)
  else if path = "engine.jsonl.close.json" then
    .ok (SpeculativePrefill.jsonText exampleResult.value ++ ['\n'])
  else .error "FileNotFoundError"

theorem exampleRead_files (lines : List Text) :
    Files exampleJson (exampleRead lines) "engine.jsonl" exampleResult lines where
  events := rfl
  status := by
    have hmem : exampleResult.value ∈ exampleValues :=
      List.mem_append_right _ (List.mem_cons_of_mem _ List.mem_cons_self)
    have hpath : "engine.jsonl" ++ ".close.json" = "engine.jsonl.close.json" := by decide
    exact ⟨SpeculativePrefill.jsonText exampleResult.value, if_pos hmem, by
      rw [hpath, exampleRead, if_neg (by decide), if_pos rfl]⟩

end ReedCode.CaptureWorker
