import Mathlib.Algebra.Order.BigOperators.Group.List
import Mathlib.Data.List.Nodup
import ReedCode.CaptureProxy.Recorded

/-!
# A capture session

All handlers of the proxy together, in any order of their steps.

* `Counted` — what the counters of the server say of its admissions;
* `capture_exact` — a capture that is done has a folder of its own, in which the request, the
  response and the metadata are what went upstream and what the client got;
* `session_bounded` — no two requests share a folder, no more inference requests than the limit go
  upstream, and none with the credentials of a client;
* `cancelled_incomplete` — a capture that is stopped before its end is not complete.
-/

set_option autoImplicit false

namespace ReedCode.CaptureProxy

open Processes

variable {C : Settings} {s s' : Server} {h h' : Handler}

/-! ## Counters -/

/-- **What the counters say**: the admissions are numbered from one, the calls are counted, and the
time runs from the first inference. -/
structure Counted (C : Settings) (s : Server) : Prop where
  sequence : s.admissions.map (·.sequence) = List.range' 1 s.sequence
  calls : s.calls = s.admissions.countP fun a => a.allowed && a.inference
  limit : s.calls ≤ C.maxCalls
  first : s.firstInference = (s.admissions.find? (·.inference)).map (·.now)
  deadline : ∀ a ∈ s.admissions, a.inference = true → ∃ first, s.firstInference = some first ∧
    (first ≠ 0 → a.deadline = first + C.seconds)
  window : ∀ a ∈ s.admissions, a.allowed = true → a.now < a.deadline

theorem Counted.congr (h₁ : Counted C s) (hcounters : Counters s s') : Counted C s' := by
  obtain ⟨hsequence, hcalls, hfirst, hadmissions⟩ := hcounters
  refine ⟨?_, ?_, ?_, ?_, ?_, ?_⟩
  · rw [hadmissions, hsequence]
    exact h₁.sequence
  · rw [hcalls, hadmissions]
    exact h₁.calls
  · rw [hcalls]
    exact h₁.limit
  · rw [hfirst, hadmissions]
    exact h₁.first
  · rw [hfirst, hadmissions]
    exact h₁.deadline
  · rw [hadmissions]
    exact h₁.window

/-- What `admit` answers, and what it leaves behind. -/
theorem admission_spec (C : Settings) (s : Server) (handler : Nat) (inference : Bool) (now : Rat) :
    ∃ s' a, s.admission C handler inference now = (s', a) ∧
      s'.admissions = s.admissions ++ [a] ∧ s'.sequence = s.sequence + 1 ∧
      a.sequence = s.sequence + 1 ∧ a.inference = inference ∧ a.now = now ∧
      s'.firstInference =
        (if inference && s.firstInference.isNone then some now else s.firstInference) ∧
      a.deadline = ((s'.firstInference.filter (· ≠ 0)).getD now) + C.seconds ∧
      a.allowed = (decide (now < a.deadline) && (!inference || decide (s.calls < C.maxCalls))) ∧
      s'.calls = (if a.allowed && inference then s.calls + 1 else s.calls) :=
  ⟨_, _, rfl, rfl, rfl, rfl, rfl, rfl, rfl, rfl, rfl, rfl⟩

/-- `admit` keeps the counters right. -/
theorem Counted.admission (h₁ : Counted C s) (handler : Nat) (inference : Bool) (now : Rat) :
    Counted C (s.admission C handler inference now).1 := by
  obtain ⟨s', a, hadmission, hadmissions, hsequence, hnumber, hinference, hnow, hfirst, hdeadline,
    hallowed, hcalls⟩ := admission_spec C s handler inference now
  have hstays : ∀ first, s.firstInference = some first → s'.firstInference = some first := by
    intro first hsome
    rw [hfirst, hsome]
    simp
  rw [hadmission]
  refine ⟨?_, ?_, ?_, ?_, ?_, ?_⟩
  · rw [hadmissions, hsequence, List.map_append, h₁.sequence, List.map_singleton, hnumber,
      List.range'_concat, Nat.one_mul, Nat.add_comm]
  · rw [hadmissions, hcalls, List.countP_append, ← h₁.calls, List.countP_singleton, hinference]
    split <;> rfl
  · rw [hcalls]
    split
    · rename_i hcounted
      rw [Bool.and_eq_true, hallowed, Bool.and_eq_true, Bool.or_eq_true, decide_eq_true_eq,
        decide_eq_true_eq] at hcounted
      obtain ⟨⟨-, hroom⟩, hcounted⟩ := hcounted
      rw [hcounted] at hroom
      exact hroom.resolve_left Bool.false_ne_true
    · exact h₁.limit
  · rw [hfirst, hadmissions, List.find?_append, h₁.first]
    cases hfind : s.admissions.find? (·.inference) with
    | none =>
      rw [List.find?_singleton, hinference]
      cases inference with
      | true => simp [hnow]
      | false => simp
    | some b => simp
  · intro b hb hinf
    rw [hadmissions] at hb
    rcases List.mem_append.1 hb with hb | hb
    · obtain ⟨first, hsome, hthis⟩ := h₁.deadline b hb hinf
      exact ⟨first, hstays first hsome, hthis⟩
    · rw [List.mem_singleton.1 hb] at hinf ⊢
      have hset : s'.firstInference.isSome = true := by
        rw [hfirst, ← hinference, hinf]
        cases s.firstInference <;> rfl
      obtain ⟨first, hsome⟩ := Option.isSome_iff_exists.1 hset
      refine ⟨first, hsome, fun hne => ?_⟩
      rw [hdeadline, hsome, Option.filter_some, if_pos (by simpa using hne), Option.getD_some]
  · intro b hb hpass
    rw [hadmissions] at hb
    rcases List.mem_append.1 hb with hb | hb
    · exact h₁.window b hb hpass
    · rw [List.mem_singleton.1 hb] at hpass ⊢
      rw [hallowed, Bool.and_eq_true, decide_eq_true_eq] at hpass
      rw [hnow]
      exact hpass.1

/-- A number is given once. -/
theorem Counted.unique (h₁ : Counted C s) {a b : Admission} (ha : a ∈ s.admissions)
    (hb : b ∈ s.admissions) (hsequence : a.sequence = b.sequence) : a = b := by
  have hnodup : (s.admissions.map (·.sequence)).Nodup := h₁.sequence ▸ List.nodup_range'
  exact List.inj_on_of_nodup_map hnodup ha hb hsequence

/-! ## The rules -/

/-- What a step of any handler leaves of the server. -/
def Forward (s s' : Server) : Prop :=
  s.admissions <+: s'.admissions ∧ s.cancelled <+: s'.cancelled

theorem Handler.Stepped.forward {r : Server × Handler} (hstep : h.Stepped C s r) :
    Forward s r.1 := by
  refine ⟨?_, hstep.logs.cancelled ▸ List.prefix_refl _⟩
  rcases hstep.counters with ⟨inference, now, -, rfl⟩ | hcounters
  · exact ⟨_, rfl⟩
  · rw [hcounters.2.2.2]

theorem control_spec {b : Control} (hcontrol : s.control b = some s') :
    Counters s s' ∧ Forward s s' ∧ s'.disk = s.disk ∧ s'.upstream = s.upstream ∧
      s'.client = s.client ∧ s'.accepted = s.accepted := by
  cases b with
  | snapshot =>
    cases hcontrol
    exact ⟨⟨rfl, rfl, rfl, rfl⟩, ⟨List.prefix_refl _, List.prefix_refl _⟩, rfl, rfl, rfl, rfl⟩
  | stop =>
    unfold Server.control at hcontrol
    dsimp only at hcontrol
    split at hcontrol
    · cases hcontrol
    · cases hcontrol
      exact ⟨⟨rfl, rfl, rfl, rfl⟩, ⟨List.prefix_refl _, List.prefix_append _ _⟩, rfl, rfl, rfl, rfl⟩

theorem rely : Rely (system C) Forward := by
  refine ⟨fun h => (own_stepped h).forward, fun h => (control_spec h).2.1, fun h => ?_⟩
  cases h
  exact ⟨List.prefix_refl _, List.prefix_refl _⟩

theorem Running.mono {c : Capture} (h₁ : Running C s h c)
    (hadmissions : s.admissions <+: s'.admissions) : Running C s' h c :=
  ⟨h₁.own.mono hadmissions rfl rfl, h₁.recorded, h₁.incomplete⟩

/-- The invariant of a handler stands when others step. -/
theorem Good.mono {phase : Phase} (hgood : Good C s h phase)
    (hadmissions : s.admissions <+: s'.admissions) : Good C s' h phase := by
  cases hgood with
  | accepted hblank => exact .accepted hblank
  | active hblank hinference => exact .active hblank hinference
  | numbered hblank hown => exact .numbered hblank (hown.mono hadmissions rfl rfl)
  | rejecting hrun hpieces hshown herror =>
    exact .rejecting (hrun.mono hadmissions) hpieces hshown herror
  | reading hrun hbody hpieces hshown herror hallowed hauth =>
    exact .reading (hrun.mono hadmissions) hbody hpieces hshown herror hallowed hauth
  | sending hrun hbody hsent hpieces hshown herror =>
    exact .sending (hrun.mono hadmissions) hbody hsent hpieces hshown herror
  | awaiting hrun hbody hsent hpieces hshown herror =>
    exact .awaiting (hrun.mono hadmissions) hbody hsent hpieces hshown herror
  | relaying hrun hthrough herror => exact .relaying (hrun.mono hadmissions) hthrough herror
  | failing hrun hpieces hshown herror =>
    exact .failing (hrun.mono hadmissions) hpieces hshown herror
  | ending hown hrecorded hends => exact .ending (hown.mono hadmissions rfl rfl) hrecorded hends
  | done hown hrecorded hends hresponse =>
    exact .done (hown.mono hadmissions rfl rfl) hrecorded hends hresponse
  | crashed hblank ha =>
    exact .crashed hblank fun b hb => (ha b hb).mono hadmissions rfl rfl

/-- What is known of every handler. -/
def Known (C : Settings) (s : Server) (h : Handler) : Prop := Good C s h h.phase

theorem stable : Stable (system C) Forward (Known C) :=
  ⟨fun hp h => hp.step (own_stepped h), fun hp hs => hp.mono hs.1⟩

theorem enter_known {request : ClientRequest}
    (henter : (system C).enter s request = some (s', h)) : Known C s' h := by
  cases henter
  exact .accepted ⟨rfl, rfl, rfl⟩

/-- A log of the proxy, of which every handler keeps its part. -/
theorem journal {α : Type} {log : Server → List (Nat × α)} {kept : Handler → List α}
    (hown : ∀ {s s' : Server} {h h' : Handler}, Logs s s' h h' →
      ∃ new, log s' = log s ++ new.map (h.id, ·) ∧ kept h' = kept h ++ new)
    (hcontrol : ∀ {s s' : Server} {b : Control}, s.control b = some s' → log s' = log s)
    (henter : ∀ (s : Server) (request : ClientRequest),
      log (s.accept request).1 = log s ∧ kept (s.accept request).2 = []) :
    Journal (system C) (Known C) log Prod.fst Handler.id fun h => (kept h).map (h.id, ·) := by
  refine ⟨fun _ h => ?_, hcontrol, fun {s request s' h} henter' => ?_⟩
  · have hlogs := (own_stepped h).logs
    obtain ⟨new, hlog, hkept⟩ := hown hlogs
    refine ⟨hlogs.id, _, hlog, fun e he => ?_, ?_⟩
    · obtain ⟨value, -, rfl⟩ := List.mem_map.1 he
      rfl
    · rw [hkept, hlogs.id, List.map_append]
  · cases henter'
    exact ⟨(henter s request).1, congrArg (List.map _) (henter s request).2⟩

theorem journal_disk : Journal (system C) (Known C) Server.disk Prod.fst Handler.id
    fun h => h.written.map (h.id, ·) :=
  journal Logs.disk (fun h => (control_spec h).2.2.1) fun _ _ => ⟨rfl, rfl⟩

theorem journal_upstream : Journal (system C) (Known C) Server.upstream Prod.fst Handler.id
    fun h => h.sent.map (h.id, ·) :=
  journal Logs.upstream (fun h => (control_spec h).2.2.2.1) fun _ _ => ⟨rfl, rfl⟩

theorem journal_client : Journal (system C) (Known C) Server.client Prod.fst Handler.id
    fun h => h.shown.map (h.id, ·) :=
  journal Logs.client (fun h => (control_spec h).2.2.2.2.1) fun _ _ => ⟨rfl, rfl⟩

/-! ## Admissions of handlers -/

/-- The admission of a handler that has one. -/
def Phase.admission? : Phase → Option Admission
  | .accepted | .active _ => none
  | .numbered a => some a
  | .rejecting c _ _ | .reading c | .sending c _ | .awaiting c | .relaying c | .failing c |
    .ending c | .done c => some c.admission
  | .crashed a => a

theorem Good.own {phase : Phase} (hgood : Good C s h phase) {a : Admission}
    (ha : phase.admission? = some a) : Own C s h a := by
  cases hgood with
  | accepted => cases ha
  | active => cases ha
  | numbered _ hown => exact Option.some.inj ha ▸ hown
  | rejecting hrun => exact Option.some.inj ha ▸ hrun.own
  | reading hrun => exact Option.some.inj ha ▸ hrun.own
  | sending hrun => exact Option.some.inj ha ▸ hrun.own
  | awaiting hrun => exact Option.some.inj ha ▸ hrun.own
  | relaying hrun => exact Option.some.inj ha ▸ hrun.own
  | failing hrun => exact Option.some.inj ha ▸ hrun.own
  | ending hown => exact Option.some.inj ha ▸ hown
  | done hown => exact Option.some.inj ha ▸ hown
  | crashed _ hown => exact hown a ha

/-- A handler has done nothing yet, or it has records. -/
theorem Good.records {phase : Phase} (hgood : Good C s h phase) :
    Blank h ∨ ∃ c more, phase.admission? = some c.admission ∧ Recorded C h c more := by
  cases hgood with
  | accepted hblank => exact .inl hblank
  | active hblank => exact .inl hblank
  | numbered hblank => exact .inl hblank
  | rejecting hrun => exact .inr ⟨_, _, rfl, hrun.recorded⟩
  | reading hrun => exact .inr ⟨_, _, rfl, hrun.recorded⟩
  | sending hrun => exact .inr ⟨_, _, rfl, hrun.recorded⟩
  | awaiting hrun => exact .inr ⟨_, _, rfl, hrun.recorded⟩
  | relaying hrun => exact .inr ⟨_, _, rfl, hrun.recorded⟩
  | failing hrun => exact .inr ⟨_, _, rfl, hrun.recorded⟩
  | ending _ hrecorded => exact .inr ⟨_, _, rfl, hrecorded⟩
  | done _ hrecorded => exact .inr ⟨_, _, rfl, hrecorded⟩
  | crashed hblank => exact .inl hblank

/-- A handler keeps its admission. -/
theorem Handler.Stepped.admission? {r : Server × Handler} (hstep : h.Stepped C s r) :
    (∃ inference now, h.phase = .active inference ∧
      r = ((s.admission C h.id inference now).1,
        { h with phase := .numbered (s.admission C h.id inference now).2 })) ∨
      r.2.phase.admission? = h.phase.admission? := by
  cases hstep with
  | number now hphase => exact .inl ⟨_, now, hphase, rfl⟩
  | begin uuid hphase =>
    refine .inr ?_
    rw [hphase]
    unfold Handler.begin
    split
    · rfl
    · dsimp only [Handler.write]
      split
      · rfl
      · split <;> rfl
  | read hphase =>
    refine .inr ?_
    rw [hphase]
    unfold Handler.readBody
    split <;> rfl
  | forwarded sending hphase =>
    rw [hphase]
    cases sending <;> exact .inr rfl
  | responded status reason headers failure hphase =>
    rw [hphase]
    cases failure <;> exact .inr rfl
  | relayed bytes cut hphase =>
    rw [hphase]
    cases cut <;> exact .inr rfl
  | settled length hphase =>
    refine .inr ?_
    rw [hphase]
    unfold Handler.settle
    dsimp only
    split
    · rfl
    · split <;> rfl
  | failed error hwaits =>
    refine .inr ?_
    generalize h.phase = phase at hwaits
    cases hwaits <;> rfl
  | register hphase =>
    rw [hphase]
    exact .inr rfl
  | crash hphase =>
    rw [hphase]
    exact .inr rfl
  | rejected hphase =>
    rw [hphase]
    exact .inr rfl
  | broken _ hphase =>
    rw [hphase]
    exact .inr rfl
  | apologised hphase =>
    rw [hphase]
    exact .inr rfl
  | silent hphase =>
    rw [hphase]
    exact .inr rfl
  | closed hphase =>
    rw [hphase]
    exact .inr rfl

/-- An inference that was let through counts against the limit. -/
def Handler.counts (h : Handler) : Nat :=
  if h.phase.admission?.any fun a => a.allowed && a.inference then 1 else 0

theorem account : Account (system C) (Known C) (fun s => C.maxCalls - s.calls) Handler.counts := by
  refine ⟨fun {s h action s' h'} _ hown => ?_, fun h => ?_, fun h => ?_⟩
  · have hstep := own_stepped hown
    rcases hstep.admission? with ⟨inference, now, hphase, hr⟩ | hsame
    · obtain ⟨s₁, a, hadmission, -, -, -, hinference, -, -, -, hallowed, hcalls⟩ :=
        admission_spec C s h.id inference now
      cases hr
      have hbefore : h.counts = 0 := by
        unfold Handler.counts
        rw [hphase]
        rfl
      have hafter : Handler.counts { h with phase := .numbered a } =
          if a.allowed && inference then 1 else 0 := by
        rw [← hinference]
        rfl
      rw [hadmission]
      dsimp only
      rw [hbefore, hafter, hcalls]
      split
      · rename_i hcounted
        rw [Bool.and_eq_true, hallowed, Bool.and_eq_true, Bool.or_eq_true, decide_eq_true_eq,
          decide_eq_true_eq] at hcounted
        obtain ⟨⟨-, hroom⟩, hcounted⟩ := hcounted
        rw [hcounted] at hroom
        have hlt := hroom.resolve_left Bool.false_ne_true
        omega
      · rfl
    · have hcounts : h'.counts = h.counts := by
        unfold Handler.counts
        rw [hsame]
      rcases hstep.counters with ⟨inference, now, hphase, hr⟩ | hcounters
      · cases hr
        rw [hphase] at hsame
        cases hsame
      · rw [hcounts, hcounters.2.1]
  · rw [(control_spec h).1.2.1]
  · cases h
    rfl

/-! ## Runs -/

/-- Handlers are numbered as they come. -/
theorem run_ids {actions : List (Action Act Control ClientRequest)} {w : World Server Handler}
    (hrun : Runs.run (system C).step ⟨.new, []⟩ actions = some w) :
    w.processes.map (·.id) = List.range w.shared.accepted := by
  refine Runs.run_induction (P := fun v : World Server Handler =>
    v.processes.map (·.id) = List.range v.shared.accepted) ?_ rfl hrun
  intro v action v' hv hstep
  cases System.step_stepped hstep with
  | @own i a h h' s hget hown =>
    have hlogs := (own_stepped hown).logs
    dsimp only
    rw [hlogs.accepted, ← hv]
    obtain ⟨hi, -⟩ := List.getElem?_eq_some_iff.1 hget
    refine List.ext_getElem? fun j => ?_
    by_cases hij : i = j
    · subst hij
      rw [List.getElem?_map, List.getElem?_map, List.getElem?_set_self hi, hget, Option.map_some,
        Option.map_some, hlogs.id]
    · rw [List.getElem?_map, List.getElem?_map, List.getElem?_set_ne hij]
  | env hcontrol =>
    dsimp only
    rw [hv, (control_spec hcontrol).2.2.2.2.2]
  | enter henter =>
    cases henter
    dsimp only [Server.accept]
    rw [List.map_append, hv, List.range_succ]
    rfl

theorem run_counted {actions : List (Action Act Control ClientRequest)} {w : World Server Handler}
    (hrun : Runs.run (system C).step ⟨.new, []⟩ actions = some w) : Counted C w.shared := by
  have hnew : Counted C .new := ⟨rfl, rfl, Nat.zero_le _, rfl,
    fun _ ha => absurd ha List.not_mem_nil, fun _ ha => absurd ha List.not_mem_nil⟩
  refine Runs.run_induction (P := fun v : World Server Handler => Counted C v.shared) ?_ hnew hrun
  intro v action v' hv hstep
  cases System.step_stepped hstep with
  | own hget hown =>
    rcases (own_stepped hown).counters with ⟨inference, now, -, hr⟩ | hcounters
    · cases hr
      exact hv.admission _ _ _
    · exact hv.congr hcounters
  | env hcontrol => exact hv.congr (control_spec hcontrol).1
  | enter henter =>
    cases henter
    exact hv.congr ⟨rfl, rfl, rfl, rfl⟩

/-- **What holds of a session**, after any run. -/
structure Session (C : Settings) (w : World Server Handler) : Prop where
  known : ∀ h ∈ w.processes, Known C w.shared h
  keys : (w.processes.map (·.id)).Nodup
  counted : Counted C w.shared
  disk : w.Kept Server.disk Prod.fst Handler.id fun h => h.written.map (h.id, ·)
  upstream : w.Kept Server.upstream Prod.fst Handler.id fun h => h.sent.map (h.id, ·)
  client : w.Kept Server.client Prod.fst Handler.id fun h => h.shown.map (h.id, ·)
  budget : (w.processes.map Handler.counts).sum ≤ C.maxCalls

theorem run_session {actions : List (Action Act Control ClientRequest)} {w : World Server Handler}
    (hrun : Runs.run (system C).step ⟨.new, []⟩ actions = some w) : Session C w := by
  have hkeys : (w.processes.map (·.id)).Nodup := run_ids hrun ▸ List.nodup_range
  have hnone : ∀ h ∈ (⟨.new, []⟩ : World Server Handler).processes, Known C .new h :=
    fun _ hh => absurd hh List.not_mem_nil
  have hempty : ∀ {α : Type} {log : Server → List (Nat × α)} {kept : Handler → List α},
      log .new = [] → (⟨.new, []⟩ : World Server Handler).Kept log Prod.fst Handler.id
        fun h => (kept h).map (h.id, ·) := fun hlog =>
    ⟨fun _ hh => absurd hh List.not_mem_nil, fun _ he => absurd (hlog ▸ he) List.not_mem_nil⟩
  have htotal := account.run stable rely enter_known hnone hrun
  have hstart : (⟨.new, []⟩ : World Server Handler).total (fun s => C.maxCalls - s.calls)
      Handler.counts = C.maxCalls := rfl
  refine ⟨stable.run_all rely enter_known hnone hrun, hkeys, run_counted hrun,
    journal_disk.run stable rely enter_known hnone hrun hkeys (hempty rfl),
    journal_upstream.run stable rely enter_known hnone hrun hkeys (hempty rfl),
    journal_client.run stable rely enter_known hnone hrun hkeys (hempty rfl), ?_⟩
  rw [hstart] at htotal
  exact htotal ▸ Nat.le_add_left _ _

/-! ## A sample -/

def sampleSettings : Settings :=
  ⟨18000, 1, 10, "", fun _ => "digest", fun _ => false, le_refl 1, by decide +kernel⟩

def sampleRequest : ClientRequest := ⟨"POST", "/v1/messages", [("Content-Length", "2")], [1, 2]⟩

/-- Two clients at once, one call allowed: the first is served until its response is over, the
second is turned away. -/
def sampleStart : List (Action Act Control ClientRequest) :=
  [.enter sampleRequest, .enter sampleRequest, .own 1 .register, .own 0 .register,
    .own 0 (.number 5), .own 1 (.number 6), .own 1 (.mkdir "b"), .own 0 (.mkdir "a"),
    .own 1 (.rejected none), .own 0 (.read none), .own 0 (.forwarded .whole),
    .own 0 (.responded 200 "OK" [] none), .own 0 (.chunk [7] 6 none), .own 1 .close]

def sampleEnd : List (Action Act Control ClientRequest) :=
  [.own 0 (.ended (some 0)), .own 0 .close]

def sampleSession (actions : List (Action Act Control ClientRequest)) :
    Option (World Server Handler) :=
  Runs.run (system sampleSettings).step ⟨.new, []⟩ actions

def Phase.done? : Phase → Option Capture
  | .done c => some c
  | _ => none

theorem Phase.done?_eq_some {phase : Phase} {c : Capture} (h : phase.done? = some c) :
    phase = .done c := by
  cases phase with
  | done => rw [Option.some.inj h]
  | _ => cases h

/-! ## Folders -/

section Session

variable {w : World Server Handler}

theorem Session.good (hsession : Session C w) (hh : h ∈ w.processes) {phase : Phase}
    (hphase : h.phase = phase) : Good C w.shared h phase := by
  subst hphase
  exact hsession.known h hh

/-- What stands in a log was put there by a handler. -/
theorem kept_author {α : Type} {log : Server → List (Nat × α)} {kept : Handler → List α}
    (hkept : w.Kept log Prod.fst Handler.id fun h => (kept h).map (h.id, ·)) {e : Nat × α}
    (he : e ∈ log w.shared) : ∃ h ∈ w.processes, h.id = e.1 ∧ e.2 ∈ kept h := by
  obtain ⟨h, hh, hid⟩ := List.mem_map.1 (hkept.known e he)
  refine ⟨h, hh, hid, ?_⟩
  have hmem : e ∈ (log w.shared).filter fun e => e.1 = h.id :=
    List.mem_filter.2 ⟨he, by simpa using hid.symm⟩
  rw [hkept.kept h hh] at hmem
  obtain ⟨value, hvalue, rfl⟩ := List.mem_map.1 hmem
  exact hvalue

/-- What a log has of a handler. -/
theorem kept_values {α : Type} {log : Server → List (Nat × α)} {kept : Handler → List α}
    (hkept : w.Kept log Prod.fst Handler.id fun h => (kept h).map (h.id, ·))
    (hh : h ∈ w.processes) :
    ((log w.shared).filter fun e => e.1 = h.id).map (·.2) = kept h := by
  rw [hkept.kept h hh, List.map_map]
  exact List.map_id _

/-- A write of a handler is in the folder of its number. -/
theorem Session.folder (hsession : Session C w) (hh : h ∈ w.processes) {write : Write}
    (hwrite : write ∈ h.written) : ∃ a, h.phase.admission? = some a ∧
      Own C w.shared h a ∧ write.folder = folderName a.sequence := by
  have hgood := hsession.known h hh
  rcases hgood.records with hblank | ⟨c, more, ha, hrecorded⟩
  · rw [hblank.written] at hwrite
    cases hwrite
  · rw [hrecorded.written] at hwrite
    obtain ⟨content, -, rfl⟩ := List.mem_map.1 hwrite
    exact ⟨c.admission, ha, hgood.own ha, rfl⟩

/-- **A folder belongs to one handler.** -/
theorem Session.separate (hsession : Session C w) {a : Admission} (ha : a ∈ w.shared.admissions)
    {e : Nat × Write} (he : e ∈ w.shared.disk) (hfolder : e.2.folder = folderName a.sequence) :
    e.1 = a.handler := by
  obtain ⟨h, hh, hid, hwrite⟩ := kept_author hsession.disk he
  obtain ⟨b, -, hown, hname⟩ := hsession.folder hh hwrite
  have hsequence : b.sequence = a.sequence :=
    Digits.zeroPad_inj (hname.symm.trans hfolder)
  rw [← hid, ← hown.handler, hsession.counted.unique hown.listed ha hsequence]

/-- **A capture that is done**, against the folders, the server upstream and the clients. -/
structure Exact (C : Settings) (s : Server) (h : Handler) (c : Capture) : Prop where
  /-- Its folder has the request, the response and the metadata, and nothing of anybody else. -/
  folder : (s.disk.filter fun e => e.2.folder = c.folder).map (·.2.content) =
    c.contents ++ [.metadata c.metadata]
  heading : ∃ uuid, c.metadata.heading = .of C c.admission h.request uuid
  /-- A body is recorded of a request that is let through, and is what the client sent. -/
  read : ∀ bytes, c.body = some bytes → c.admission.allowed = true ∧
    h.request.forbiddenAuth = false ∧ ∃ rest, body h.request.framing = .ok (bytes, rest)
  request : c.metadata.requestSha256 = c.body.map C.sha256 ∧
    c.metadata.requestBytes = c.body.map List.length
  response : c.metadata.chunks = (c.pieces.getD []).map List.length ∧
    c.metadata.responseSha256 = some (C.sha256 (c.pieces.getD []).flatten) ∧
      c.metadata.responseBytes = some (c.pieces.getD []).flatten.length
  /-- Nothing went upstream, or one request with the body that is recorded. -/
  upstream : (s.upstream.filter fun e => e.1 = h.id).map (·.2) = [] ∨
    ∃ bytes whole, c.body = some bytes ∧
      (s.upstream.filter fun e => e.1 = h.id).map (·.2) = [c.message C h.request bytes whole]
  /-- The client got the pieces that are recorded, but for the end of the last. -/
  client : Told c.metadata.responseStatus c.pieces
    ((s.client.filter fun e => e.1 = h.id).map (·.2))
  error : c.metadata.complete = true ↔ c.metadata.error = none
  /-- A complete capture lacks nothing. -/
  complete : c.metadata.complete = true → ∃ bytes pieces code reason headers,
    c.body = some bytes ∧ c.pieces = some pieces ∧ c.metadata.responseStatus = some code ∧
      (s.upstream.filter fun e => e.1 = h.id).map (·.2) = [c.message C h.request bytes true] ∧
      (s.client.filter fun e => e.1 = h.id).map (·.2) =
        .head code reason headers :: pieces.map .chunk

/-- **A capture is exact**, in every order of the steps of all handlers, whatever fails. -/
theorem capture_exact (C : Settings) {actions : List (Action Act Control ClientRequest)}
    (hrun : Runs.run (system C).step ⟨.new, []⟩ actions = some w) :
    ∀ h ∈ w.processes, ∀ c, h.phase = .done c → Exact C w.shared h c := by
  have hsession := run_session hrun
  intro h hh c hphase
  cases hsession.good hh hphase with
  | done hown hrecorded hends hresponse =>
  have hfolder : (w.shared.disk.filter fun e => e.2.folder = c.folder) =
      w.shared.disk.filter fun e => e.1 = h.id := by
    refine List.filter_congr fun e he => ?_
    rw [decide_eq_decide]
    constructor
    · intro hname
      rw [hsession.separate hown.listed he hname, hown.handler]
    · intro hid
      obtain ⟨q, hq, hqid, hwrite⟩ := kept_author hsession.disk he
      have hsame : q = h := List.inj_on_of_nodup_map hsession.keys hq hh (hqid.trans hid)
      rw [hsame, hrecorded.written] at hwrite
      obtain ⟨content, -, hcontent⟩ := List.mem_map.1 hwrite
      rw [← hcontent]
  have hupstream := kept_values hsession.upstream hh
  have hclient := kept_values hsession.client hh
  refine ⟨?_, hrecorded.heading, hrecorded.read, hrecorded.request,
    ⟨hrecorded.chunks, hresponse⟩, hupstream ▸ hrecorded.sent, hclient ▸ hends.told, hends.error,
    fun hcomplete => ?_⟩
  · have hwritten := kept_values hsession.disk hh
    have hcontent := congrArg (List.map Write.content) (hwritten.trans hrecorded.written)
    rw [List.map_map, List.map_map] at hcontent
    rw [hfolder]
    exact hcontent.trans (List.map_id _)
  · obtain ⟨⟨bytes, hbody, hsent⟩, pieces, code, reason, headers, hpieces, hstatus, hshown⟩ :=
      hends.complete hcomplete
    exact ⟨bytes, pieces, code, reason, headers, hbody, hpieces, hstatus, hupstream.trans hsent,
      hclient.trans hshown⟩

theorem capture_exact_sample : ∃ w, sampleSession (sampleStart ++ sampleEnd) = some w ∧
    ∃ h ∈ w.processes, ∃ c, h.phase = .done c ∧ c.metadata.complete = true ∧
      Exact sampleSettings w.shared h c := by
  have hdone : (sampleSession (sampleStart ++ sampleEnd)).any (fun w =>
      w.processes[0]?.any fun h => h.phase.done?.any fun c => c.metadata.complete) = true := by
    decide +kernel
  obtain ⟨w, hw, hfirst⟩ := (Option.any_eq_true _ _).1 hdone
  obtain ⟨h, hget, hlast⟩ := (Option.any_eq_true _ _).1 hfirst
  obtain ⟨c, hc, hcomplete⟩ := (Option.any_eq_true _ _).1 hlast
  have hphase := Phase.done?_eq_some hc
  have hh := List.mem_of_getElem? hget
  exact ⟨w, hw, h, hh, c, hphase, hcomplete, capture_exact sampleSettings hw h hh c hphase⟩

/-! ## Credentials -/

/-- Headers without a credential, but for the dummy of the study. -/
def Harmless (headers : Headers) : Prop :=
  ∀ f ∈ headers, f.1.toLower ∉ ["x-api-key", "cookie", "proxy-authorization"] ∧
    (f.1.toLower = "authorization" → f.2 = "Bearer local-dynamo")

instance (headers : Headers) : Decidable (Harmless headers) :=
  inferInstanceAs (Decidable (∀ f ∈ headers, _))

theorem getAll_ne_nil {headers : Headers} {f : String × String} (hf : f ∈ headers) {name : String}
    (hname : f.1.toLower = name) : getAll headers name ≠ [] := by
  refine List.ne_nil_of_mem (a := f.2) ?_
  exact List.mem_map_of_mem (List.mem_filter.2 ⟨hf, by simpa using hname⟩)

/-- The headers of a client that is let through are harmless. -/
theorem harmless_of_authorized {r : ClientRequest} (hauth : r.forbiddenAuth = false) :
    Harmless r.headers := by
  unfold ClientRequest.forbiddenAuth at hauth
  rw [Bool.or_eq_false_iff, Bool.or_eq_false_iff] at hauth
  obtain ⟨⟨-, hdummy⟩, hnone⟩ := hauth
  intro f hf
  constructor
  · intro hname
    have habsent := List.any_eq_false.1 hnone _ hname
    exact habsent (by simpa using getAll_ne_nil hf rfl)
  · intro hname
    have hvalue : f.2 ∈ getAll r.headers "authorization" :=
      List.mem_map_of_mem (List.mem_filter.2 ⟨hf, by simpa using hname⟩)
    simpa using List.any_eq_false.1 hdummy _ hvalue

theorem Harmless.append {a b : Headers} (ha : Harmless a) (hb : Harmless b) : Harmless (a ++ b) :=
  fun f hf => (List.mem_append.1 hf).elim (ha f) (hb f)

/-- A header of the proxy itself. -/
theorem harmless_own (name value : String)
    (hname : name.toLower ∉ ["authorization", "x-api-key", "cookie", "proxy-authorization"]) :
    Harmless [(name, value)] := by
  intro f hf
  rw [List.mem_singleton.1 hf]
  exact ⟨fun h => hname (List.mem_cons_of_mem _ h), fun h => absurd (h ▸ List.mem_cons_self) hname⟩

theorem forwardedHeaders_harmless {r : ClientRequest} (hauth : r.forbiddenAuth = false)
    (a : Admission) (uuid : String) (bytes : Bytes) :
    Harmless (forwardedHeaders C r (.of C a r uuid) bytes) := by
  have hinjected : Harmless (Heading.of C a r uuid).injectedRequestHeaders := by
    unfold Heading.of
    dsimp only
    split
    · exact harmless_own _ _ (by decide +kernel)
    · exact fun f hf => absurd hf List.not_mem_nil
  have hclient : Harmless (r.headers.filter fun f =>
      !(HOP_HEADERS ++ ["host", "content-length"]).contains f.1.toLower &&
        !(connectionHeaders r.headers).contains f.1.toLower.toList) :=
    fun f hf => harmless_of_authorized hauth f (List.mem_of_mem_filter hf)
  have hhost := harmless_own "Host" (hostOf C r.path) (by decide +kernel)
  have hlength := harmless_own "Content-Length" (toString bytes.length)
    (by decide +kernel)
  have hclose := harmless_own "Connection" "close" (by decide +kernel)
  exact ((hhost.append hclient).append (hlength.append hinjected)).append hclose

/-! ## Limits -/

/-- What a handler sent: at most one request, of an admission that was let through. -/
theorem Good.sent {phase : Phase} (hgood : Good C s h phase) : h.sent = [] ∨
    ∃ a message, phase.admission? = some a ∧ Own C s h a ∧ h.sent = [message] ∧
      a.allowed = true ∧ message.inference = a.inference ∧ Harmless message.headers := by
  rcases hgood.records with hblank | ⟨c, more, ha, hrecorded⟩
  · exact .inl hblank.sent
  · rcases hrecorded.sent with hsent | ⟨bytes, whole, hbody, hsent⟩
    · exact .inl hsent
    · obtain ⟨uuid, hheading⟩ := hrecorded.heading
      obtain ⟨hallowed, hauth, -⟩ := hrecorded.read bytes hbody
      refine .inr ⟨c.admission, _, ha, hgood.own ha, hsent, hallowed, ?_, ?_⟩
      · dsimp only [Capture.message]
        rw [hheading]
        rfl
      · dsimp only [Capture.message]
        rw [hheading]
        exact forwardedHeaders_harmless hauth _ _ _

/-- The inference requests upstream are as many as the limit counts, at most. -/
theorem Session.budget_upstream (hsession : Session C w) :
    w.shared.upstream.countP (fun e => e.2.inference) ≤ C.maxCalls := by
  refine le_trans ?_ hsession.budget
  rw [(hsession.upstream.perm hsession.keys).countP_eq, List.countP_flatMap]
  refine List.sum_le_sum fun h hh => ?_
  rw [Function.comp_apply, List.countP_map]
  rcases (hsession.known h hh).sent with hsent | ⟨a, message, ha, -, hsent, hallowed, hsame, -⟩
  · rw [hsent]
    exact Nat.zero_le _
  · rw [hsent, List.countP_singleton, Function.comp_apply, Handler.counts, ha, Option.any_some,
      hallowed, Bool.true_and, ← hsame]

/-- How a handler comes to crash. -/
theorem Handler.Stepped.crashed {r : Server × Handler} (hstep : h.Stepped C s r)
    {a : Option Admission} (hcrashed : r.2.phase = .crashed a) :
    inferenceRequest C h.request.method h.request.path = none ∨
      ∃ b, h.phase = .numbered b ∧ ∃ e ∈ s.disk, e.2.folder = folderName b.sequence := by
  cases hstep with
  | crash _ hinference => exact .inl hinference
  | @begin b uuid hphase =>
    unfold Handler.begin at hcrashed
    split at hcrashed
    · rename_i hany
      obtain ⟨e, he, hname⟩ := List.any_eq_true.1 hany
      exact .inr ⟨b, hphase, e, he, by simpa using hname⟩
    · dsimp only [Handler.write] at hcrashed
      split at hcrashed
      · cases hcrashed
      · split at hcrashed <;> cases hcrashed
  | read hphase =>
    unfold Handler.readBody at hcrashed
    split at hcrashed <;> cases hcrashed
  | forwarded sending hphase => cases sending <;> cases hcrashed
  | responded status reason headers failure hphase => cases failure <;> cases hcrashed
  | relayed bytes cut hphase => cases cut <;> cases hcrashed
  | _ => cases hcrashed

/-- **No folder is taken twice**: a handler crashes only at a path that cannot be read. -/
theorem run_crashed {actions : List (Action Act Control ClientRequest)}
    (hrun : Runs.run (system C).step ⟨.new, []⟩ actions = some w) :
    ∀ h ∈ w.processes, ∀ a, h.phase = .crashed a →
      inferenceRequest C h.request.method h.request.path = none := by
  have hboth : (∃ actions, Runs.run (system C).step ⟨.new, []⟩ actions = some w) ∧
      ∀ h ∈ w.processes, ∀ a, h.phase = .crashed a →
        inferenceRequest C h.request.method h.request.path = none := by
    refine Runs.run_induction (P := fun v : World Server Handler =>
      (∃ actions, Runs.run (system C).step ⟨.new, []⟩ actions = some v) ∧
        ∀ h ∈ v.processes, ∀ a, h.phase = .crashed a →
          inferenceRequest C h.request.method h.request.path = none) ?_
      ⟨⟨[], rfl⟩, fun _ hh => absurd hh List.not_mem_nil⟩ hrun
    intro v action v' hv hstep
    obtain ⟨⟨past, hpast⟩, hv⟩ := hv
    refine ⟨⟨past ++ [action], (Runs.run_append_eq_some _).2
      ⟨v, hpast, (Runs.run_cons_eq_some _).2 ⟨v', hstep, rfl⟩⟩⟩, ?_⟩
    cases System.step_stepped hstep with
    | @own i action h h' s hget hown =>
      intro q hq a hphase
      rcases List.mem_or_eq_of_mem_set hq with hq | rfl
      · exact hv q hq a hphase
      have hmem := List.mem_of_getElem? hget
      have hstepped := own_stepped hown
      have hsession := run_session hpast
      rw [hstepped.logs.request]
      rcases hstepped.crashed hphase with hnone | ⟨b, hnumbered, e, he, hname⟩
      · exact hnone
      · cases hsession.good hmem hnumbered with
        | numbered hblank hown' =>
          have hid := hsession.separate hown'.listed he hname
          obtain ⟨g, hg, hgid, hwrite⟩ := kept_author hsession.disk he
          have hsame : g = h := List.inj_on_of_nodup_map hsession.keys hg hmem
            (hgid.trans (hid.trans hown'.handler))
          rw [hsame, hblank.written] at hwrite
          cases hwrite
    | env _ => exact hv
    | enter henter =>
      cases henter
      intro q hq a hphase
      rcases List.mem_append.1 hq with hq | hq
      · exact hv q hq a hphase
      · rw [List.mem_singleton.1 hq] at hphase
        cases hphase
  exact hboth.2

/-- **The limits of a session.** -/
structure Bounded (C : Settings) (w : World Server Handler) : Prop where
  numbers : w.shared.admissions.map (·.sequence) = List.range' 1 w.shared.admissions.length
  /-- A folder is of one handler. -/
  folders : ∀ d ∈ w.shared.disk, ∀ e ∈ w.shared.disk, d.2.folder = e.2.folder → d.1 = e.1
  crashed : ∀ h ∈ w.processes, ∀ a, h.phase = .crashed a →
    inferenceRequest C h.request.method h.request.path = none
  calls : w.shared.upstream.countP (fun e => e.2.inference) ≤ C.maxCalls
  once : ∀ h ∈ w.processes, (w.shared.upstream.filter fun e => e.1 = h.id).length ≤ 1
  /-- What goes upstream was let through, and carries no credential. -/
  upstream : ∀ e ∈ w.shared.upstream, Harmless e.2.headers ∧ ∃ a ∈ w.shared.admissions,
    a.handler = e.1 ∧ a.allowed = true ∧ e.2.inference = a.inference
  /-- An inference is let through within the time from the first, unless the clock read zero. -/
  window : ∀ a ∈ w.shared.admissions, a.allowed = true → a.inference = true → ∀ first,
    w.shared.admissions.find? (·.inference) = some first → first.now ≠ 0 →
      a.now < first.now + C.seconds

/-- **A session keeps to its limits**, in every order of the steps of all handlers. -/
theorem session_bounded (C : Settings) {actions : List (Action Act Control ClientRequest)}
    (hrun : Runs.run (system C).step ⟨.new, []⟩ actions = some w) : Bounded C w := by
  have hsession := run_session hrun
  have hcounted := hsession.counted
  refine ⟨?_, fun d hd e he hfolder => ?_, run_crashed hrun, hsession.budget_upstream,
    fun h hh => ?_, fun e he => ?_, fun a ha hallowed hinference first hfind hne => ?_⟩
  · have hlength := congrArg List.length hcounted.sequence
    rw [List.length_map, List.length_range'] at hlength
    rw [hlength]
    exact hcounted.sequence
  · obtain ⟨h, hh, hid, hwrite⟩ := kept_author hsession.disk hd
    obtain ⟨a, -, hown, hname⟩ := hsession.folder hh hwrite
    rw [hsession.separate hown.listed he (hfolder.symm.trans hname), hown.handler, hid]
  · have hkept := congrArg List.length (kept_values hsession.upstream hh)
    rw [List.length_map] at hkept
    rw [hkept]
    rcases (hsession.known h hh).sent with hsent | ⟨a, message, -, -, hsent, -⟩
    · rw [hsent]
      exact Nat.zero_le _
    · rw [hsent]
      exact le_refl _
  · obtain ⟨h, hh, hid, hmessage⟩ := kept_author hsession.upstream he
    rcases (hsession.known h hh).sent with
      hsent | ⟨a, message, -, hown, hsent, hpass, hsame, hclean⟩
    · rw [hsent] at hmessage
      cases hmessage
    · rw [hsent, List.mem_singleton] at hmessage
      rw [hmessage]
      exact ⟨hclean, a, hown.listed, hown.handler.trans hid, hpass, hsame⟩
  · obtain ⟨now, hfirst, hdeadline⟩ := hcounted.deadline a ha hinference
    rw [hcounted.first, hfind, Option.map_some, Option.some.injEq] at hfirst
    subst hfirst
    exact hdeadline hne ▸ hcounted.window a ha hallowed

theorem session_bounded_sample : ∃ w, sampleSession (sampleStart ++ sampleEnd) = some w ∧
    w.shared.upstream.length = 1 ∧ Bounded sampleSettings w := by
  have hsent : (sampleSession (sampleStart ++ sampleEnd)).any
      (fun w => w.shared.upstream.length = 1) = true := by decide +kernel
  obtain ⟨w, hw, hone⟩ := (Option.any_eq_true _ _).1 hsent
  exact ⟨w, hw, of_decide_eq_true hone, session_bounded sampleSettings hw⟩

/-! ## Cancellation -/

/-- The metadata of a handler says that it is complete. -/
def Phase.isComplete : Phase → Bool
  | .accepted | .active _ | .numbered _ | .crashed _ => false
  | .rejecting c _ _ | .reading c | .sending c _ | .awaiting c | .relaying c | .failing c |
    .ending c | .done c => c.metadata.complete

/-- A handler that is stopped before it is complete. -/
def Stopped (s : Server) (h : Handler) : Prop :=
  h.id ∈ s.cancelled ∧ h.phase.isComplete = false

theorem Stopped.step {r : Server × Handler} (hstopped : Stopped s h) (hstep : h.Stepped C s r) :
    Stopped r.1 r.2 := by
  obtain ⟨hcancelled, hopen⟩ := hstopped
  refine ⟨hstep.logs.id ▸ hstep.logs.cancelled ▸ hcancelled, ?_⟩
  cases hstep with
  | register => rfl
  | crash => rfl
  | number => rfl
  | begin uuid =>
    unfold Handler.begin
    split
    · rfl
    · dsimp only [Handler.write]
      split
      · rfl
      · split <;> rfl
  | read hphase =>
    rw [hphase] at hopen
    unfold Handler.readBody
    split <;> exact hopen
  | forwarded sending hphase =>
    rw [hphase] at hopen
    cases sending <;> exact hopen
  | responded status reason headers failure hphase =>
    rw [hphase] at hopen
    cases failure <;> exact hopen
  | relayed bytes cut hphase =>
    rw [hphase] at hopen
    cases cut <;> exact hopen
  | settled length hphase =>
    -- the only step that sets `complete`, behind the check of `cancelled`
    rw [hphase] at hopen
    unfold Handler.settle
    dsimp only
    rw [if_pos hcancelled]
    split <;> exact hopen
  | failed error hwaits =>
    generalize h.phase = phase at hwaits hopen
    cases hwaits <;> exact hopen
  | rejected hphase =>
    rw [hphase] at hopen
    exact hopen
  | broken _ hphase =>
    rw [hphase] at hopen
    exact hopen
  | apologised hphase =>
    rw [hphase] at hopen
    exact hopen
  | silent hphase =>
    rw [hphase] at hopen
    exact hopen
  | closed hphase =>
    rw [hphase] at hopen
    exact hopen

theorem stopped_stable : Stable (system C) Forward Stopped :=
  ⟨fun hp h => hp.step (own_stepped h), fun hp hs => ⟨hs.2.subset hp.1, hp.2⟩⟩

/-- **A capture that is stopped before its end is never complete**, and its metadata says why. -/
theorem cancelled_incomplete (C : Settings) {before after : List (Action Act Control ClientRequest)}
    {w' : World Server Handler} (hbefore : Runs.run (system C).step ⟨.new, []⟩ before = some w)
    (hafter : Runs.run (system C).step w after = some w') {i : Nat}
    (hget : w.processes[i]? = some h) (hcancelled : h.id ∈ w.shared.cancelled)
    (hopen : h.phase.isComplete = false) :
    ∃ h', w'.processes[i]? = some h' ∧ h'.phase.isComplete = false ∧
      ∀ c, h'.phase = .done c → c.metadata.complete = false ∧ c.metadata.error ≠ none := by
  obtain ⟨h', hget', hstopped⟩ := stopped_stable.run rely hget ⟨hcancelled, hopen⟩ hafter
  refine ⟨h', hget', hstopped.2, fun c hphase => ?_⟩
  have hincomplete : c.metadata.complete = false := by
    have hlast := hstopped.2
    rw [hphase] at hlast
    exact hlast
  have hsession := run_session ((Runs.run_append_eq_some _).2 ⟨w, hbefore, hafter⟩)
  cases hsession.good (List.mem_of_getElem? hget') hphase with
  | done _ _ hends =>
    exact ⟨hincomplete, fun herror =>
      Bool.false_ne_true (hincomplete.symm.trans (hends.error.2 herror))⟩

/-- The first client is stopped, and then its response is over. -/
theorem cancelled_incomplete_sample : ∃ w w' h', sampleSession
      (sampleStart ++ [.env .snapshot, .env .stop]) = some w ∧
    Runs.run (system sampleSettings).step w sampleEnd = some w' ∧ w'.processes[0]? = some h' ∧
      h'.phase.isComplete = false := by
  have hstopped : (sampleSession (sampleStart ++ [.env .snapshot, .env .stop])).any (fun w =>
      (Runs.run (system sampleSettings).step w sampleEnd).isSome && w.processes[0]?.any fun h =>
        decide (h.id ∈ w.shared.cancelled ∧ h.phase.isComplete = false)) = true := by
    decide +kernel
  obtain ⟨w, hw, hboth⟩ := (Option.any_eq_true _ _).1 hstopped
  rw [Bool.and_eq_true] at hboth
  obtain ⟨w', hend⟩ := Option.isSome_iff_exists.1 hboth.1
  obtain ⟨h, hget, hopen⟩ := (Option.any_eq_true _ _).1 hboth.2
  obtain ⟨hcancelled, hincomplete⟩ := of_decide_eq_true hopen
  obtain ⟨h', hget', hlast, -⟩ :=
    cancelled_incomplete sampleSettings hw hend hget hcancelled hincomplete
  exact ⟨w, w', h', hw, hend, hget', hlast⟩

end Session

end ReedCode.CaptureProxy
