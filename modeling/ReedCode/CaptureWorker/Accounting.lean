import ReedCode.CaptureWorker.Writer
import Mathlib.Data.List.Range
import Mathlib.Tactic.SplitIfs

/-!
# The accounts of the capture writer

* `Ledger` — where the sequence numbers are, and the counters; an entry is dropped or put, counted,
  taken by the writer, and then persisted or failed.
* `Ledger.Balanced` — each number that was placed is at one place, the counters count, and while
  nothing was dropped or has failed the entries keep their order.  Every move keeps the balance.
* `Accounted` — the ledger of a state is balanced, and nothing is lost without a failure.
* `step_accounted`, `run_accounted` — every step of either thread makes one move at most, hence the
  accounts hold in every run.
-/

set_option autoImplicit false

namespace ReedCode.CaptureWorker

/-! ## Ledgers -/

structure Ledger where
  dropped : List Nat
  queue : List Entry
  hand : List Entry
  persisted : List Entry
  failed : List Entry
  /-- How many numbers have been placed. -/
  placed : Nat
  /-- The entry that is in the queue and not yet counted. -/
  uncounted : Nat
  droppedCount : Nat
  queuedCount : Nat
  persistedCount : Nat
  failedCount : Nat

namespace Ledger

def places (l : Ledger) : List Nat :=
  l.dropped ++ (l.queue.map Prod.fst ++ (l.hand.map Prod.fst ++
    (l.persisted.map Prod.fst ++ l.failed.map Prod.fst)))

/-- The entries that were put, without the failed ones, the oldest in front. -/
def line (l : Ledger) : List Entry := l.persisted ++ (l.hand ++ l.queue)

structure Balanced (l : Ledger) : Prop where
  places : ∀ k, l.places.count k = if 1 ≤ k ∧ k ≤ l.placed then 1 else 0
  inOrder : l.dropped = [] → l.failed = [] → l.line.map Prod.fst = List.range' 1 l.placed
  dropped : l.droppedCount = l.dropped.length
  persisted : l.persistedCount = l.persisted.length
  failed : l.failedCount = l.failed.length
  queued : l.queuedCount + l.uncounted =
    l.queue.length + l.hand.length + l.persisted.length + l.failed.length

/-! ## Moves -/

def drop (l : Ledger) : Ledger :=
  { l with
    dropped := l.dropped ++ [l.placed + 1]
    placed := l.placed + 1
    droppedCount := l.droppedCount + 1 }

def put (l : Ledger) (text : Text) : Ledger :=
  { l with queue := l.queue ++ [(l.placed + 1, text)], placed := l.placed + 1, uncounted := 1 }

def count (l : Ledger) : Ledger :=
  { l with queuedCount := l.queuedCount + l.uncounted, uncounted := 0 }

def take (l : Ledger) (entry : Entry) (queue : List Entry) : Ledger :=
  { l with queue, hand := [entry] }

def persist (l : Ledger) : Ledger :=
  { l with
    hand := []
    persisted := l.persisted ++ l.hand
    persistedCount := l.persistedCount + l.hand.length }

def fail (l : Ledger) : Ledger :=
  { l with
    hand := []
    failed := l.failed ++ l.hand
    failedCount := l.failedCount + l.hand.length }

/-- One more number is placed. -/
theorem count_next {n k c : Nat} (h : c = if 1 ≤ k ∧ k ≤ n then 1 else 0) :
    c + [n + 1].count k = if 1 ≤ k ∧ k ≤ n + 1 then 1 else 0 := by
  rw [List.count_singleton]
  by_cases hk : n + 1 = k
  · simp only [beq_iff_eq, hk, if_true]
    split_ifs at h ⊢ <;> omega
  · simp only [beq_iff_eq, hk, if_false]
    split_ifs at h ⊢ <;> omega

theorem Balanced.drop {l : Ledger} (h : l.Balanced) : l.drop.Balanced where
  places k := by
    have hcount := count_next (h.places k)
    show l.drop.places.count k = if 1 ≤ k ∧ k ≤ l.placed + 1 then 1 else 0
    simp only [Ledger.places, Ledger.drop, List.count_append] at hcount ⊢
    omega
  inOrder hdropped := by simp [Ledger.drop] at hdropped
  dropped := by simp [Ledger.drop, h.dropped]
  persisted := h.persisted
  failed := h.failed
  queued := h.queued

theorem Balanced.put {l : Ledger} (h : l.Balanced) (hcounted : l.uncounted = 0) (text : Text) :
    (l.put text).Balanced where
  places k := by
    have hcount := count_next (h.places k)
    show (l.put text).places.count k = if 1 ≤ k ∧ k ≤ l.placed + 1 then 1 else 0
    simp only [Ledger.places, Ledger.put, List.count_append, List.map_append, List.map_cons,
      List.map_nil] at hcount ⊢
    omega
  inOrder hdropped hfailed := by
    have horder := h.inOrder hdropped hfailed
    simp only [Ledger.line, Ledger.put, List.map_append, List.map_cons, List.map_nil] at horder ⊢
    rw [List.range'_1_concat, ← horder, Nat.add_comm 1]
    simp
  dropped := h.dropped
  persisted := h.persisted
  failed := h.failed
  queued := by
    have hqueued := h.queued
    simp only [Ledger.put, List.length_append, List.length_singleton]
    omega

theorem Balanced.count {l : Ledger} (h : l.Balanced) : l.count.Balanced :=
  ⟨h.places, h.inOrder, h.dropped, h.persisted, h.failed, h.queued⟩

theorem Balanced.take {l : Ledger} (h : l.Balanced) (hhand : l.hand = []) {entry : Entry}
    {queue : List Entry} (hqueue : l.queue = entry :: queue) : (l.take entry queue).Balanced where
  places k := by
    have hcount := h.places k
    show (l.take entry queue).places.count k = if 1 ≤ k ∧ k ≤ l.placed then 1 else 0
    simp only [Ledger.places, hhand, hqueue, Ledger.take, List.count_append, List.map_cons,
      List.map_nil, List.count_cons, List.count_nil] at hcount ⊢
    omega
  inOrder hdropped hfailed := by
    have horder := h.inOrder hdropped hfailed
    simpa [Ledger.line, Ledger.take, hhand, hqueue] using horder
  dropped := h.dropped
  persisted := h.persisted
  failed := h.failed
  queued := by
    have hqueued := h.queued
    simp only [hhand, hqueue, List.length_cons, List.length_nil] at hqueued
    simp only [Ledger.take, List.length_singleton]
    omega

theorem Balanced.persist {l : Ledger} (h : l.Balanced) : l.persist.Balanced where
  places k := by
    have hcount := h.places k
    show l.persist.places.count k = if 1 ≤ k ∧ k ≤ l.placed then 1 else 0
    simp only [Ledger.places, Ledger.persist, List.count_append, List.map_append, List.map_nil,
      List.count_nil] at hcount ⊢
    omega
  inOrder hdropped hfailed := by
    have horder := h.inOrder hdropped hfailed
    simpa [Ledger.line, Ledger.persist] using horder
  dropped := h.dropped
  persisted := by simp [Ledger.persist, h.persisted]
  failed := h.failed
  queued := by
    have hqueued := h.queued
    simp only [Ledger.persist, List.length_append, List.length_nil]
    omega

theorem Balanced.fail {l : Ledger} (h : l.Balanced) (hhand : l.hand ≠ []) : l.fail.Balanced where
  places k := by
    have hcount := h.places k
    show l.fail.places.count k = if 1 ≤ k ∧ k ≤ l.placed then 1 else 0
    simp only [Ledger.places, Ledger.fail, List.count_append, List.map_append, List.map_nil,
      List.count_nil] at hcount ⊢
    omega
  inOrder _ hfailed := absurd (List.append_eq_nil_iff.1 hfailed).2 hhand
  dropped := h.dropped
  persisted := h.persisted
  failed := by simp [Ledger.fail, h.failed]
  queued := by
    have hqueued := h.queued
    simp only [Ledger.fail, List.length_append, List.length_nil]
    omega

end Ledger

/-! ## The ledger of a state -/

/-- The entry the writer has taken from the queue. -/
def Writer.hand : Writer → List Entry
  | .holding entry | .wrote entry | .failing entry _ => [entry]
  | _ => []

/-- The producer is inside `write`. -/
def Producer.inCall : Producer → Bool
  | .called .. | .refused .. | .encoded .. | .counting .. => true
  | _ => false

/-- The number of calls of `write` that have returned. -/
def State.returned (s : State) : Nat :=
  if s.producer.inCall then s.sequence - 1 else s.sequence

/-- The current call has not put its entry anywhere. -/
def Producer.unplaced : Producer → Bool
  | .called .. | .refused .. | .encoded .. => true
  | _ => false

def Producer.uncounted : Producer → Nat
  | .counting _ _ _ put => if put then 1 else 0
  | _ => 0

def State.ledger (s : State) : Ledger where
  dropped := s.history.dropped
  queue := s.queue
  hand := s.writer.hand
  persisted := s.history.persisted
  failed := s.history.failed
  placed := if s.producer.unplaced then s.sequence - 1 else s.sequence
  uncounted := s.producer.uncounted
  droppedCount := s.dropped
  queuedCount := s.queued
  persistedCount := s.persisted
  failedCount := s.failed

structure Accounted (s : State) : Prop where
  balanced : s.ledger.Balanced
  current : s.producer.inCall = true → 0 < s.sequence
  clean : s.failures = [] → s.history.dropped = [] ∧ s.history.failed = []

theorem accounted_new {processId : String} {pid capacity : Nat} {s : State}
    (h : State.new processId pid capacity = .ok s) : Accounted s := by
  unfold State.new at h
  split at h
  · cases h
  · cases h
    refine ⟨⟨fun k => ?_, fun _ _ => rfl, rfl, rfl, rfl, rfl⟩, fun h => (by cases h),
      fun _ => ⟨rfl, rfl⟩⟩
    have hnone : ¬ (1 ≤ k ∧ k ≤ 0) := by omega
    exact (if_neg hnone).symm

/-- A step that moves nothing. -/
theorem Accounted.quiet {s s' : State} (h : Accounted s) (hledger : s'.ledger = s.ledger)
    (hcurrent : s'.producer.inCall = true → 0 < s'.sequence)
    (hfailures : s'.failures = [] → s.failures = []) : Accounted s' := by
  refine ⟨hledger ▸ h.balanced, hcurrent, fun hclean => ?_⟩
  obtain ⟨hdropped, hfailed⟩ := h.clean (hfailures hclean)
  exact ⟨(congrArg Ledger.dropped hledger).trans hdropped,
    (congrArg Ledger.failed hledger).trans hfailed⟩

/-! ## The producer -/

theorem accounted_call {s : State} (h : Accounted s)
    (hp : s.producer = .starting ∨ s.producer = .idle) (closing : Bool) (call : Call) (now : Nat) :
    Accounted (s.call closing call now) := by
  refine h.quiet ?_ (fun _ => Nat.succ_pos _) id
  rcases hp with hp | hp <;>
    simp [State.ledger, State.call, hp, Producer.unplaced, Producer.uncounted]

theorem accounted_serialize {J : Json} {s : State} (h : Accounted s) {closing : Bool} {call : Call}
    {started : Nat} (hp : s.producer = .called closing call started) (now wall : Nat) :
    Accounted (s.serialize J closing call started now wall) := by
  have hcurrent : 0 < s.sequence := h.current (by simp [hp, Producer.inCall])
  unfold State.serialize
  dsimp only
  split
  · refine h.quiet ?_ (fun _ => hcurrent) id
    simp [State.ledger, hp, Producer.unplaced, Producer.uncounted]
  · refine h.quiet ?_ (fun _ => hcurrent) id
    simp [State.ledger, hp, Producer.unplaced, Producer.uncounted]

theorem Accounted.drop {s s' : State} (h : Accounted s) (hledger : s'.ledger = s.ledger.drop)
    (hcurrent : 0 < s'.sequence) (hfailures : s'.failures ≠ []) : Accounted s' :=
  ⟨hledger ▸ h.balanced.drop, fun _ => hcurrent, fun hclean => absurd hclean hfailures⟩

theorem accounted_refuse {s : State} (h : Accounted s) {closing : Bool} {started : Nat}
    {error : String} (hp : s.producer = .refused closing started error) (now : Nat) :
    Accounted (s.refuse closing started error now) := by
  have hcurrent : 0 < s.sequence := h.current (by simp [hp, Producer.inCall])
  have hnext : s.sequence - 1 + 1 = s.sequence := Nat.sub_add_cancel hcurrent
  refine h.drop ?_ hcurrent (by simp [State.refuse, State.return, State.drop])
  cases closing <;>
    simp [State.ledger, State.refuse, State.return, State.drop, Ledger.drop, hp, hnext,
      Producer.unplaced, Producer.uncounted]

theorem accounted_enqueue {s : State} (h : Accounted s) {closing : Bool} {started : Nat}
    {text : Text} (hp : s.producer = .encoded closing started text) (now : Nat) :
    Accounted (s.enqueue closing started text now) := by
  have hcurrent : 0 < s.sequence := h.current (by simp [hp, Producer.inCall])
  have hnext : s.sequence - 1 + 1 = s.sequence := Nat.sub_add_cancel hcurrent
  unfold State.enqueue
  split
  · refine h.drop ?_ hcurrent (by simp [State.drop])
    simp [State.ledger, State.drop, Ledger.drop, hp, hnext, Producer.unplaced, Producer.uncounted]
  · split
    · refine h.drop ?_ hcurrent (by simp [State.drop])
      simp [State.ledger, State.drop, Ledger.drop, hp, hnext, Producer.unplaced,
        Producer.uncounted]
    · have hcounted : s.ledger.uncounted = 0 := by simp [State.ledger, hp, Producer.uncounted]
      refine ⟨?_, fun _ => hcurrent, h.clean⟩
      have hput := h.balanced.put hcounted text
      simpa [State.ledger, Ledger.put, hp, hnext, Producer.unplaced, Producer.uncounted] using hput

theorem accounted_count {s : State} (h : Accounted s) {closing : Bool} {started serialized : Nat}
    {put : Bool} (hp : s.producer = .counting closing started serialized put) (now : Nat) :
    Accounted (s.count closing started serialized put now) := by
  have hcurrent : 0 < s.sequence := h.current (by simp [hp, Producer.inCall])
  have hledger : (s.count closing started serialized put now).ledger = s.ledger.count := by
    cases put <;> cases closing <;>
      simp [State.ledger, State.count, State.return, Ledger.count, hp, Producer.unplaced,
        Producer.uncounted]
  refine ⟨hledger ▸ h.balanced.count, fun _ => ?_, ?_⟩
  · cases put <;> exact hcurrent
  · cases put <;> exact h.clean

theorem Producer.outside {p : Producer} (h : p.inCall = false) :
    p.unplaced = false ∧ p.uncounted = 0 := by
  cases p <;> first | exact ⟨rfl, rfl⟩ | cases h

/-- Outside of `write` the producer moves nothing. -/
theorem Accounted.outside {s : State} (h : Accounted s) {p : Producer} (closed stop : Bool)
    {failures : List Value} (hp : s.producer.inCall = false) (hp' : p.inCall = false)
    (hfailures : failures = [] → s.failures = []) :
    Accounted { s with closed, stop, failures, producer := p } := by
  obtain ⟨hplaced, hcounted⟩ := Producer.outside hp
  obtain ⟨hplaced', hcounted'⟩ := Producer.outside hp'
  refine h.quiet ?_ (fun hin => ?_) hfailures
  · simp [State.ledger, hplaced, hcounted, hplaced', hcounted']
  · rw [hp'] at hin
    cases hin

theorem produce_accounted {J : Json} {s s' : State} (h : Accounted s) {now wall : Nat}
    (hstep : s.produce J now wall = some s') : Accounted s' := by
  unfold State.produce at hstep
  cases hp : s.producer with
  | starting | idle | returned => simp [hp] at hstep
  | called closing call started =>
    rw [hp] at hstep
    cases hstep
    exact accounted_serialize h hp now wall
  | refused closing started error =>
    rw [hp] at hstep
    cases hstep
    exact accounted_refuse h hp now
  | encoded closing started text =>
    rw [hp] at hstep
    cases hstep
    exact accounted_enqueue h hp now
  | counting closing started serialized put =>
    rw [hp] at hstep
    cases hstep
    exact accounted_count h hp now
  | joined =>
    rw [hp] at hstep
    cases hstep
    refine h.outside _ _ (by rw [hp]; rfl) ?_ id
    split <;> rfl
  | timedOut =>
    rw [hp] at hstep
    cases hstep
    exact h.outside _ _ (by rw [hp]; rfl) rfl fun hclean => absurd hclean (by simp)
  | closeWritten | closeMarked | joining | reporting | reported | judged =>
    rw [hp] at hstep
    cases hstep
    exact h.outside _ _ (by rw [hp]; rfl) rfl id

/-! ## The writer -/

/-- A step of the writer that moves no entry. -/
theorem Accounted.still {s : State} (h : Accounted s) {writer : Writer} (stream : Text)
    (summaryWritten : Bool) (summary : Option (Value × Text)) {failures : List Value}
    (hhand : writer.hand = s.writer.hand) (hfailures : failures = [] → s.failures = []) :
    Accounted { s with
      stream, summaryWritten, failures, writer, history := { s.history with summary } } := by
  refine h.quiet ?_ h.current hfailures
  simp [State.ledger, hhand]

theorem State.whenFree_eq_some {s s' t : State} :
    s.whenFree s' = some t ↔ s.locked = false ∧ s' = t := by
  unfold State.whenFree
  cases s.locked <;> simp

theorem accounted_persist {s : State} (h : Accounted s) {entry : Entry}
    (hw : s.writer = .wrote entry) : Accounted (s.persist entry) := by
  have hledger : (s.persist entry).ledger = s.ledger.persist := by
    have hhand : s.writer.hand = [entry] := by rw [hw]; rfl
    simp only [State.ledger, Ledger.persist, hhand, List.length_singleton]
    rfl
  exact ⟨hledger ▸ h.balanced.persist, h.current, h.clean⟩

theorem accounted_fail {s : State} (h : Accounted s) {entry : Entry} {error : String}
    (hw : s.writer = .failing entry error) : Accounted (s.fail entry error) := by
  have hledger : (s.fail entry error).ledger = s.ledger.fail := by
    have hhand : s.writer.hand = [entry] := by rw [hw]; rfl
    simp only [State.ledger, Ledger.fail, hhand, List.length_singleton]
    rfl
  have hhand : s.ledger.hand ≠ [] := by simp [State.ledger, hw, Writer.hand]
  exact ⟨hledger ▸ h.balanced.fail hhand, h.current,
    fun hclean => absurd hclean (by simp [State.fail])⟩

theorem accounted_take {s : State} (h : Accounted s) (hw : s.writer = .getting) {entry : Entry}
    {queue : List Entry} (hqueue : s.queue = entry :: queue) :
    Accounted { s with queue, writer := .holding entry } := by
  have hhand : s.ledger.hand = [] := by simp [State.ledger, hw, Writer.hand]
  exact ⟨h.balanced.take hhand hqueue, h.current, h.clean⟩

theorem accounted_summarize {J : Json} {s : State} (h : Accounted s)
    (hw : s.writer = .summarizing) : Accounted (s.summarize J) := by
  unfold State.summarize
  split
  · exact h.still _ _ _ (by rw [hw]; rfl) id
  · exact h.still _ _ _ (by rw [hw]; rfl) id

theorem consume_accounted {J : Json} {s s' : State} (h : Accounted s) {outcome : Outcome}
    (hstep : s.consume J outcome = some s') : Accounted s' := by
  unfold State.consume at hstep
  cases hw : s.writer with
  | loop | stopping =>
    rw [hw] at hstep
    cases hstep
    refine h.still _ _ _ ?_ id
    split <;> simp [hw, Writer.hand]
  | getting =>
    rw [hw] at hstep
    dsimp only at hstep
    split at hstep
    · cases hstep
      exact h.still _ _ _ (by rw [hw]; rfl) id
    · rename_i hqueue
      cases hstep
      exact accounted_take h hw hqueue
  | holding entry =>
    rw [hw] at hstep
    cases outcome <;> cases hstep <;> exact h.still _ _ _ (by rw [hw]; rfl) id
  | wrote entry =>
    rw [hw] at hstep
    obtain ⟨-, rfl⟩ := State.whenFree_eq_some.1 hstep
    exact accounted_persist h hw
  | failing entry error =>
    rw [hw] at hstep
    obtain ⟨-, rfl⟩ := State.whenFree_eq_some.1 hstep
    exact accounted_fail h hw
  | summarizing =>
    rw [hw] at hstep
    obtain ⟨-, rfl⟩ := State.whenFree_eq_some.1 hstep
    exact accounted_summarize h hw
  | summarized summary text =>
    rw [hw] at hstep
    cases outcome <;> cases hstep <;> exact h.still _ _ _ (by rw [hw]; rfl) id
  | summaryFailed error | closeFailed error =>
    rw [hw] at hstep
    obtain ⟨-, rfl⟩ := State.whenFree_eq_some.1 hstep
    exact h.still _ _ _ (by rw [hw]; rfl) fun hclean => absurd hclean (by simp)
  | closing =>
    rw [hw] at hstep
    cases outcome <;> cases hstep <;> exact h.still _ _ _ (by rw [hw]; rfl) id
  | flushed | exiting =>
    rw [hw] at hstep
    cases hstep
    exact h.still _ _ _ (by rw [hw]; rfl) id
  | ended => simp [hw] at hstep

/-! ## Runs -/

theorem step_accounted {J : Json} {s s' : State} (h : Accounted s) {action : Action}
    (hstep : step J s action = some s') : Accounted s' := by
  cases action with
  | start now =>
    simp only [step, Option.ite_none_right_eq_some, Option.some.injEq] at hstep
    obtain ⟨hp, rfl⟩ := hstep
    exact accounted_call h (.inl hp) false captureStart now
  | write call now =>
    simp only [step, Option.ite_none_right_eq_some, Option.some.injEq] at hstep
    obtain ⟨hp, rfl⟩ := hstep
    exact accounted_call h (.inr hp) false call now
  | close now =>
    simp only [step, Option.ite_none_right_eq_some, Option.some.injEq] at hstep
    obtain ⟨hp, rfl⟩ := hstep
    split
    · exact h.outside _ _ (by rw [hp]; rfl) rfl id
    · exact accounted_call h (.inr hp) true captureClose now
  | produce now wall => exact produce_accounted h hstep
  | consume outcome => exact consume_accounted h hstep

theorem run_accounted {J : Json} {processId : String} {pid capacity : Nat} {start s : State}
    {actions : List Action} (hnew : State.new processId pid capacity = .ok start)
    (hrun : Runs.run (step J) start actions = some s) : Accounted s :=
  Runs.run_induction (fun _ _ _ h hstep => step_accounted h hstep) (accounted_new hnew) hrun

/-! ## What the accounts say -/

/-- **Nothing is lost without a trace**: a number whose call has returned is at one place. -/
theorem Accounted.place {s : State} (h : Accounted s) {k : Nat} (hk : 1 ≤ k)
    (hreturned : k ≤ s.returned) : s.ledger.places.count k = 1 := by
  have hplaced : s.returned ≤ s.ledger.placed := by
    unfold State.returned State.ledger
    cases s.producer <;> simp [Producer.inCall, Producer.unplaced]
  rw [h.balanced.places k, if_pos ⟨hk, hreturned.trans hplaced⟩]

/-- Outside of the locked sections no entry is uncounted. -/
theorem State.uncounted_of_free {s : State} (h : s.locked = false) : s.ledger.uncounted = 0 := by
  unfold State.locked at h
  unfold State.ledger
  cases hp : s.producer <;> simp_all [Producer.uncounted]

end ReedCode.CaptureWorker
