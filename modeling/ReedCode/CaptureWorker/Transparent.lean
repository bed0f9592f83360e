import ReedCode.CaptureWorker.Exchange

/-!
# The capture is transparent

All wrapped generators together, whatever their consumers and the engine do and in whatever order.

* `Placed` — the tasks and the bodies agree on which body runs in which task, and the context of a
  task nests.
* `Logs` — what each body has attempted to write, and what the links carry.
* `step_inv` — every step keeps both.
* `capture_transparent` — what a consumer, the engine and a reader of the capture see.
-/

set_option autoImplicit false

namespace ReedCode.CaptureWorker.Generate

/-! ## Tasks and bodies -/

structure Placed (gens : FinMap Nat Gen) (tasks : FinMap Nat (ContextVar Nat)) : Prop where
  balanced : ∀ {t c}, tasks.get? t = some c → c.Balanced
  nodup : ∀ {t c}, tasks.get? t = some c → c.held.Nodup
  held : ∀ {t c}, tasks.get? t = some c → ∀ {g}, g ∈ c.held →
    ∃ b, gens.get? g = some (.started b) ∧ b.phase.task? = some t
  runs : ∀ {g b t}, gens.get? g = some (.started b) → b.phase.task? = some t →
    ∃ c, tasks.get? t = some c ∧ g ∈ c.held

section Placed

variable {gens : FinMap Nat Gen} {tasks : FinMap Nat (ContextVar Nat)} {t g : Nat}
  {c : ContextVar Nat} {b b' : Body}

/-- A body that does not run starts to run in a task. -/
theorem placed_push (h : Placed gens tasks) (hc : tasks.get? t = some c)
    (hidle : ∀ b, gens.get? g = some (.started b) → b.phase.task? = none)
    (hb : b'.phase.task? = some t) :
    Placed (gens.insert g (.started b')) (tasks.insert t (c.set g)) where
  balanced := by
    intro t₁ c₁ h₁
    rw [FinMap.get?_insert] at h₁
    split at h₁
    · cases h₁
      exact (h.balanced hc).set g
    · exact h.balanced h₁
  nodup := by
    intro t₁ c₁ h₁
    rw [FinMap.get?_insert] at h₁
    split at h₁
    · cases h₁
      refine List.nodup_cons.2 ⟨fun hg => ?_, h.nodup hc⟩
      obtain ⟨b₁, hb₁, hrun⟩ := h.held hc hg
      rw [hidle b₁ hb₁] at hrun
      cases hrun
    · exact h.nodup h₁
  held := by
    intro t₁ c₁ h₁ g₁ hg₁
    rw [FinMap.get?_insert] at h₁ ⊢
    have hother : ∀ {t₁ c₁}, tasks.get? t₁ = some c₁ → g₁ ∈ c₁.held → g ≠ g₁ ∧
        ∃ b, gens.get? g₁ = some (.started b) ∧ b.phase.task? = some t₁ := by
      intro t₁ c₁ h₁ hg₁
      obtain ⟨b₁, hb₁, hrun⟩ := h.held h₁ hg₁
      refine ⟨fun he => ?_, b₁, hb₁, hrun⟩
      rw [hidle b₁ (he ▸ hb₁)] at hrun
      cases hrun
    split at h₁
    · rename_i ht
      cases h₁
      rw [ContextVar.held_set, List.mem_cons] at hg₁
      rcases hg₁ with rfl | hg₁
      · rw [if_pos rfl, ← ht]
        exact ⟨b', rfl, hb⟩
      · obtain ⟨hne, hold⟩ := hother hc hg₁
        rw [if_neg hne, ← ht]
        exact hold
    · obtain ⟨hne, hold⟩ := hother h₁ hg₁
      rw [if_neg hne]
      exact hold
  runs := by
    intro g₁ b₁ t₁ h₁ hrun
    rw [FinMap.get?_insert] at h₁ ⊢
    split at h₁
    · rename_i hg
      cases h₁
      rw [hb, Option.some.injEq] at hrun
      rw [if_pos hrun, ← hg]
      exact ⟨_, rfl, List.mem_cons_self⟩
    · obtain ⟨c₁, hc₁, hmem⟩ := h.runs h₁ hrun
      by_cases ht : t = t₁
      · rw [if_pos ht]
        rw [← ht, hc, Option.some.injEq] at hc₁
        exact ⟨_, rfl, List.mem_cons_of_mem _ (hc₁ ▸ hmem)⟩
      · rw [if_neg ht]
        exact ⟨c₁, hc₁, hmem⟩

/-- The body that a task runs comes to rest. -/
theorem placed_pop (h : Placed gens tasks) (hc : tasks.get? t = some c) (htop : c.top = some g)
    (hb : b'.phase.task? = none) :
    Placed (gens.insert g (.started b')) (tasks.insert t c.reset) where
  balanced := by
    intro t₁ c₁ h₁
    rw [FinMap.get?_insert] at h₁
    split at h₁
    · cases h₁
      exact (h.balanced hc).reset
    · exact h.balanced h₁
  nodup := by
    intro t₁ c₁ h₁
    rw [FinMap.get?_insert] at h₁
    split at h₁
    · cases h₁
      have hnodup := h.nodup hc
      rw [ContextVar.held_of_top htop] at hnodup
      exact (List.nodup_cons.1 hnodup).2
    · exact h.nodup h₁
  held := by
    have hheld := ContextVar.held_of_top htop
    have hnodup := h.nodup hc
    rw [hheld, List.nodup_cons] at hnodup
    obtain ⟨b₀, hb₀, hrun₀⟩ := h.held hc (hheld ▸ List.mem_cons_self)
    intro t₁ c₁ h₁ g₁ hg₁
    rw [FinMap.get?_insert] at h₁ ⊢
    split at h₁
    · rename_i ht
      cases h₁
      rw [if_neg fun he : g = g₁ => hnodup.1 (he ▸ hg₁), ← ht]
      exact h.held hc (hheld ▸ List.mem_cons_of_mem _ hg₁)
    · rename_i ht
      obtain ⟨b₁, hb₁, hrun⟩ := h.held h₁ hg₁
      rw [if_neg]
      · exact ⟨b₁, hb₁, hrun⟩
      · -- the body runs in `t` alone
        intro he
        rw [← he, hb₀, Option.some.injEq, Gen.started.injEq] at hb₁
        rw [← hb₁, hrun₀, Option.some.injEq] at hrun
        exact ht hrun
  runs := by
    have hheld := ContextVar.held_of_top htop
    intro g₁ b₁ t₁ h₁ hrun
    rw [FinMap.get?_insert] at h₁ ⊢
    split at h₁
    · cases h₁
      rw [hb] at hrun
      cases hrun
    · rename_i hg
      obtain ⟨c₁, hc₁, hmem⟩ := h.runs h₁ hrun
      by_cases ht : t = t₁
      · rw [if_pos ht]
        rw [← ht, hc, Option.some.injEq] at hc₁
        rw [← hc₁, hheld, List.mem_cons] at hmem
        exact ⟨_, rfl, hmem.resolve_left (Ne.symm hg)⟩
      · rw [if_neg ht]
        exact ⟨c₁, hc₁, hmem⟩

/-- The body that a task runs goes on to another place. -/
theorem placed_keep (h : Placed gens tasks) (hc : tasks.get? t = some c) (htop : c.top = some g)
    (hb : b'.phase.task? = some t) :
    Placed (gens.insert g (.started b')) (tasks.insert t (c.reset.set g)) := by
  let resting : Body := { b' with phase := .ended }
  have hpop : Placed (gens.insert g (.started resting)) (tasks.insert t c.reset) :=
    placed_pop h hc htop rfl
  have hpush : Placed ((gens.insert g (.started resting)).insert g (.started b'))
      ((tasks.insert t c.reset).insert t (c.reset.set g)) := by
    refine placed_push hpop (FinMap.get?_insert_self _ _ _) (fun b₁ h₁ => ?_) hb
    rw [FinMap.get?_insert_self] at h₁
    cases h₁
    rfl
  rwa [FinMap.insert_insert, FinMap.insert_insert] at hpush

/-- A change that leaves every started body where it runs. -/
theorem placed_restate {gen : Gen} (h : Placed gens tasks)
    (hsame : ∀ b', gen = .started b' →
      ∃ b, gens.get? g = some (.started b) ∧ b'.phase = b.phase)
    (hstarted : ∀ b, gens.get? g = some (.started b) → ∃ b', gen = .started b') :
    Placed (gens.insert g gen) tasks where
  balanced := h.balanced
  nodup := h.nodup
  held := by
    intro t₁ c₁ h₁ g₁ hg₁
    obtain ⟨b₁, hb₁, hrun⟩ := h.held h₁ hg₁
    rw [FinMap.get?_insert]
    split
    · rename_i he
      obtain ⟨b', hgen⟩ := hstarted b₁ (he ▸ hb₁)
      obtain ⟨b₂, hb₂, hphase⟩ := hsame b' hgen
      rw [he, hb₁, Option.some.injEq, Gen.started.injEq] at hb₂
      exact ⟨b', congrArg some hgen, by rw [hphase, ← hb₂, hrun]⟩
    · exact ⟨b₁, hb₁, hrun⟩
  runs := by
    intro g₁ b₁ t₁ h₁ hrun
    rw [FinMap.get?_insert] at h₁
    split at h₁
    · rename_i he
      rw [Option.some.injEq] at h₁
      obtain ⟨b₂, hb₂, hphase⟩ := hsame b₁ h₁
      exact h.runs (he ▸ hb₂) (hphase ▸ hrun)
    · exact h.runs h₁ hrun

theorem placed_spawn {t' : Nat} (h : Placed gens tasks) (ht' : tasks.get? t' = none) :
    Placed gens (tasks.insert t' c.copy) where
  balanced := by
    intro t₁ c₁ h₁
    rw [FinMap.get?_insert] at h₁
    split at h₁
    · cases h₁
      exact ContextVar.balanced_copy c
    · exact h.balanced h₁
  nodup := by
    intro t₁ c₁ h₁
    rw [FinMap.get?_insert] at h₁
    split at h₁
    · cases h₁
      exact List.nodup_nil
    · exact h.nodup h₁
  held := by
    intro t₁ c₁ h₁ g₁ hg₁
    rw [FinMap.get?_insert] at h₁
    split at h₁
    · cases h₁
      cases hg₁
    · exact h.held h₁ hg₁
  runs := by
    intro g₁ b₁ t₁ h₁ hrun
    obtain ⟨c₁, hc₁, hmem⟩ := h.runs h₁ hrun
    refine ⟨c₁, ?_, hmem⟩
    rw [FinMap.get?_insert_ne _ _ fun he => ?_]
    · exact hc₁
    · rw [← he, ht'] at hc₁
      cases hc₁

end Placed

/-! ## What is written -/

/-- The calls of `write` by one body, in order. -/
def callsOf (g : Nat) (written : List Attempt) : List Call :=
  (written.filter fun a => a.writer = some g).map fun a => a.record.call

theorem callsOf_append (g : Nat) (written new : List Attempt) :
    callsOf g (written ++ new) = callsOf g written ++ callsOf g new := by
  simp only [callsOf, List.filter_append, List.map_append]

/-- The records of some outputs, from a state on. -/
def outputCalls : Capture → List Output → List Call
  | _, [] => []
  | st, output :: outs =>
    (Record.engineOutput (st.take output) output).call :: outputCalls (st.take output) outs

theorem outputCalls_append (output : Output) : ∀ (outs : List Output) (st : Capture),
    outputCalls st (outs ++ [output]) =
      outputCalls st outs ++ [(Record.engineOutput ((st.after outs).take output) output).call]
  | [], _ => rfl
  | o :: outs, st => by
    rw [List.cons_append, outputCalls, outputCalls, outputCalls_append output outs]
    rfl

/-- **What a body has written**: `engine_enter`, a record for each output that came, and
`engine_result` once it has ended, with a state that those outputs decide. -/
def Logged (b : Body) (calls : List Call) : Prop :=
  ∃ last, calls = (enterRecord b.state.captureId b.args).call ::
      outputCalls (Capture.new b.state.captureId b.args) b.received ++ last ∧
    (b.phase ≠ .ended → last = []) ∧
    (b.phase = .ended → ∃ st : Capture, last = [(Record.engineResult st b.terminal).call] ∧
      st.shared = b.state.shared ∧ st.error = b.state.error)

section Logged

variable {b b' : Body} {calls : List Call}

/-- Between two records. -/
theorem logged_congr (h : Logged b calls) (hid : b'.state.captureId = b.state.captureId)
    (hargs : b'.args = b.args) (hreceived : b'.received = b.received) (hb : b.phase ≠ .ended)
    (hb' : b'.phase ≠ .ended) : Logged b' calls := by
  obtain ⟨last, hcalls, hopen, _⟩ := h
  exact ⟨last, by rw [hid, hargs, hreceived, hcalls], fun _ => hopen hb, fun he => absurd he hb'⟩

theorem logged_take {t : Nat} (h : Logged b calls) (hsound : Sound b b.received)
    (hp : b.phase = .advancing t) (output : Output) :
    Logged (b.take output) (calls ++ [(Record.engineOutput (b.take output).state output).call]) := by
  obtain ⟨last, hcalls, hopen, _⟩ := h
  have hlast : last = [] := hopen (by rw [hp]; exact fun he => (by cases he))
  have hreceived : (b.take output).received = b.received ++ [output] :=
    (sound_take hsound hp output).received
  refine ⟨[], ?_, fun _ => rfl, fun he => (by cases he)⟩
  rw [hreceived, outputCalls_append, List.append_nil, hcalls, hlast, List.append_nil,
    List.cons_append]
  -- the record does not show what the outputs do not decide
  have hcall : (Record.engineOutput (b.take output).state output).call =
      (Record.engineOutput (b.state.shared.take output) output).call := rfl
  rw [hcall, hsound.state]
  rfl

theorem logged_close {t : Nat} {after : Told} (h : Logged b calls)
    (hp : b.phase = .closing t after) (error : Option PyError) :
    Logged (b.close after error)
      (calls ++ [(Record.engineResult b.state b.terminal).call]) := by
  obtain ⟨last, hcalls, hopen, _⟩ := h
  have hlast : last = [] := hopen (by rw [hp]; exact fun he => (by cases he))
  refine ⟨_, ?_, fun he => absurd rfl he, fun _ => ⟨b.state, rfl, rfl, rfl⟩⟩
  rw [hcalls, hlast, List.append_nil]
  rfl

theorem logged_link (h : Logged b calls) (ids : List String) :
    Logged { b with state := { b.state with engineRequestIds := ids } } calls := h

end Logged

structure Logs (gens : FinMap Nat Gen) (written : List Attempt) : Prop where
  started : ∀ {g b}, gens.get? g = some (.started b) →
    Sound b b.received ∧ Logged b (callsOf g written)
  silent : ∀ {g}, (∀ b, gens.get? g ≠ some (.started b)) → callsOf g written = []
  links : ∀ {a link ids same g}, a ∈ written → a.record = .engineLink link ids same →
    a.inside = some g →
    ∃ b, gens.get? g = some (.started b) ∧ link.captureId = some b.state.captureId

section Logs

variable {gens : FinMap Nat Gen} {written : List Attempt} {g : Nat} {b' : Body}

/-- A stretch of one body, with the records it writes. -/
theorem logs_body {new : List Attempt} (h : Logs gens written)
    (hnew : ∀ a ∈ new, a.writer = some g ∧ ∀ link ids same, a.record ≠ .engineLink link ids same)
    (hsound : Sound b' b'.received)
    (hlogged : Logged b' (callsOf g written ++ new.map fun a => a.record.call))
    (hid : ∀ b, gens.get? g = some (.started b) → b'.state.captureId = b.state.captureId) :
    Logs (gens.insert g (.started b')) (written ++ new) where
  started := by
    intro g₁ b₁ h₁
    rw [FinMap.get?_insert] at h₁
    rw [callsOf_append]
    split at h₁
    · rename_i he
      cases h₁
      refine ⟨hsound, ?_⟩
      have hall : callsOf g₁ new = new.map fun a => a.record.call := by
        rw [callsOf, List.filter_eq_self.2 fun a ha => ?_]
        rw [(hnew a ha).1, he, decide_eq_true rfl]
      rw [hall, ← he]
      exact hlogged
    · rename_i he
      have hnone : callsOf g₁ new = [] := by
        rw [callsOf, List.filter_eq_nil_iff.2 fun a ha => ?_, List.map_nil]
        rw [(hnew a ha).1]
        simpa using he
      rw [hnone, List.append_nil]
      exact h.started h₁
  silent := by
    intro g₁ h₁
    have he : g ≠ g₁ := fun he => h₁ b' (by rw [he, FinMap.get?_insert_self])
    have hnone : callsOf g₁ new = [] := by
      rw [callsOf, List.filter_eq_nil_iff.2 fun a ha => ?_, List.map_nil]
      rw [(hnew a ha).1]
      simpa using he
    rw [callsOf_append, hnone, List.append_nil]
    refine h.silent fun b₁ hb₁ => h₁ b₁ ?_
    rw [FinMap.get?_insert_ne _ _ he]
    exact hb₁
  links := by
    intro a link ids same g₁ ha hrecord hinside
    rcases List.mem_append.1 ha with ha | ha
    · obtain ⟨b₁, hb₁, hlink⟩ := h.links ha hrecord hinside
      rw [FinMap.get?_insert]
      split
      · rename_i he
        exact ⟨b', rfl, by rw [hlink, hid b₁ (he ▸ hb₁)]⟩
      · exact ⟨b₁, hb₁, hlink⟩
    · exact absurd hrecord ((hnew a ha).2 link ids same)

/-- A record of `add_request` or `abort`. -/
theorem logs_other {a : Attempt} (h : Logs gens written) (hwriter : a.writer = none)
    (hlink : ∀ link ids same g, a.record = .engineLink link ids same → a.inside = some g →
      ∃ b, gens.get? g = some (.started b) ∧ link.captureId = some b.state.captureId) :
    Logs gens (written ++ [a]) where
  started := by
    intro g₁ b₁ h₁
    have hnone : callsOf g₁ [a] = [] := by simp [callsOf, hwriter]
    rw [callsOf_append, hnone, List.append_nil]
    exact h.started h₁
  silent := by
    intro g₁ h₁
    have hnone : callsOf g₁ [a] = [] := by simp [callsOf, hwriter]
    rw [callsOf_append, hnone, List.append_nil]
    exact h.silent h₁
  links := by
    intro a₁ link ids same g₁ ha hrecord hinside
    rcases List.mem_append.1 ha with ha | ha
    · exact h.links ha hrecord hinside
    · rw [List.mem_singleton] at ha
      exact hlink link ids same g₁ (ha ▸ hrecord) (ha ▸ hinside)

/-- A generator that is made, or closed before it starts. -/
theorem logs_unstarted {gen : Gen} (h : Logs gens written) (hgen : ∀ b, gen ≠ .started b)
    (hg : ∀ b, gens.get? g ≠ some (.started b)) : Logs (gens.insert g gen) written where
  started := by
    intro g₁ b₁ h₁
    rw [FinMap.get?_insert] at h₁
    split at h₁
    · rw [Option.some.injEq] at h₁
      exact absurd h₁ (hgen b₁)
    · exact h.started h₁
  silent := by
    intro g₁ h₁
    by_cases he : g = g₁
    · exact h.silent (he ▸ hg)
    · refine h.silent fun b₁ hb₁ => h₁ b₁ ?_
      rw [FinMap.get?_insert_ne _ _ he]
      exact hb₁
  links := by
    intro a link ids same g₁ ha hrecord hinside
    obtain ⟨b₁, hb₁, hlink⟩ := h.links ha hrecord hinside
    refine ⟨b₁, ?_, hlink⟩
    rw [FinMap.get?_insert_ne _ _ fun he : g = g₁ => hg b₁ (he ▸ hb₁)]
    exact hb₁

end Logs

/-! ## Every step -/

structure Inv (w : World) : Prop where
  placed : Placed w.gens w.tasks
  logs : Logs w.gens w.written

theorem inv_start : Inv .start where
  placed :=
    { balanced := fun {t c} h => by
        rw [World.start, FinMap.get?_insert] at h
        split at h
        · cases h
          exact ContextVar.balanced_new
        · cases h
      nodup := fun {t c} h => by
        rw [World.start, FinMap.get?_insert] at h
        split at h
        · cases h
          exact List.nodup_nil
        · cases h
      held := fun {t c} h {g} hg => by
        rw [World.start, FinMap.get?_insert] at h
        split at h
        · cases h
          cases hg
        · cases h
      runs := fun h => (by cases h) }
  logs := ⟨fun h => (by cases h), fun _ => rfl, fun h => (by cases h)⟩

section Step

variable {w w' : World} {t g : Nat}

theorem begin_inv {c : ContextVar Nat} {args : Args} (hi : Inv w) (hc : w.tasks.get? t = some c)
    (hg : w.gens.get? g = some (.fresh args)) (captureId : String) :
    Inv (w.begin t c g args captureId) := by
  have hnot : ∀ b, w.gens.get? g ≠ some (.started b) := fun b hb => by
    rw [hg] at hb
    cases hb
  refine ⟨placed_push hi.placed hc (fun b hb => absurd hb (hnot b)) rfl, ?_⟩
  refine logs_body hi.logs (fun a ha => ?_) (sound_advance (sound_new captureId args) rfl t) ?_
    fun b hb => absurd hb (hnot b)
  · rw [List.mem_singleton] at ha
    subst ha
    exact ⟨rfl, fun _ _ _ he => (by cases he)⟩
  · rw [hi.logs.silent hnot]
    exact ⟨[], rfl, fun _ => rfl, fun he => (by cases he)⟩

/-- A body at `yield output` is resumed. -/
theorem resume_started_inv {c : ContextVar Nat} {b b' : Body} (hi : Inv w)
    (hc : w.tasks.get? t = some c) (hg : w.gens.get? g = some (.started b))
    (hp : b.phase = .yielded) (hrun : b'.phase.task? = some t) (hsound : Sound b' b.received)
    (hid : b'.state.captureId = b.state.captureId) (hargs : b'.args = b.args) :
    Inv ((w.setGen g (.started b')).setTask t (c.set g)) := by
  have hreceived := hsound.received
  refine ⟨placed_push hi.placed hc (fun b₁ h₁ => ?_) hrun, ?_⟩
  · rw [hg, Option.some.injEq, Gen.started.injEq] at h₁
    rw [← h₁, hp]
    rfl
  · have hlogs : Logs (w.gens.insert g (.started b')) (w.written ++ []) := by
      refine logs_body hi.logs (fun a ha => by cases ha) (hreceived ▸ hsound) ?_ fun b₁ h₁ => ?_
      · rw [List.map_nil, List.append_nil]
        refine logged_congr (hi.logs.started hg).2 hid hargs hreceived ?_ ?_
        · rw [hp]
          exact fun he => (by cases he)
        · intro he
          rw [he] at hrun
          cases hrun
      · rw [hg, Option.some.injEq, Gen.started.injEq] at h₁
        rw [← h₁, hid]
    rwa [List.append_nil] at hlogs

theorem resume_inv {how : Resumption} {captureId : String} (hi : Inv w)
    (h : w.resume t g how captureId = some w') : Inv w' := by
  simp only [World.resume, Option.bind_eq_bind, Option.bind_eq_some_iff] at h
  obtain ⟨c, hc, gen, hg, h⟩ := h
  cases gen with
  | fresh args =>
    have hspent : Inv (w.setGen g .spent) := by
      have hnot : ∀ b, w.gens.get? g ≠ some (.started b) := fun b hb => by
        rw [hg] at hb
        cases hb
      exact ⟨placed_restate hi.placed (fun b' he => by cases he) fun b hb => absurd hb (hnot b),
        logs_unstarted hi.logs (fun b he => by cases he) hnot⟩
    cases how with
    | next =>
      cases h
      exact begin_inv hi hc hg captureId
    | close =>
      cases h
      exact hspent
    | throw error =>
      cases h
      exact hspent
  | spent =>
    cases h
    exact hi
  | started b =>
    have hsound := (hi.logs.started hg).1
    cases hp : b.phase with
    | yielded =>
      simp only [hp, Option.some.injEq] at h
      subst h
      cases how with
      | next => exact resume_started_inv hi hc hg hp rfl (sound_advance hsound hp t) rfl rfl
      | close =>
        exact resume_started_inv hi hc hg hp rfl (sound_thrown hsound hp t generatorExit) rfl rfl
      | throw error =>
        exact resume_started_inv hi hc hg hp rfl (sound_thrown hsound hp t error) rfl rfl
    | advancing t' =>
      simp only [hp, Option.some.injEq] at h
      exact h ▸ hi
    | closing t' after =>
      simp only [hp, Option.some.injEq] at h
      exact h ▸ hi
    | ended =>
      simp only [hp, Option.some.injEq] at h
      exact h ▸ hi

/-- A body whose `anext` ends goes on to `aclose`. -/
theorem leave_inv {c : ContextVar Nat} {b b' : Body} (hi : Inv w) (hc : w.tasks.get? t = some c)
    (htop : c.top = some g) (hg : w.gens.get? g = some (.started b))
    (hp : b.phase = .advancing t) {after : Told} (hp' : b'.phase = .closing t after)
    (hsound : Sound b' b.received) (hid : b'.state.captureId = b.state.captureId)
    (hargs : b'.args = b.args) :
    Inv ((w.setGen g (.started b')).setTask t (c.reset.set g)) := by
  have hreceived := hsound.received
  refine ⟨placed_keep hi.placed hc htop (by rw [hp']; rfl), ?_⟩
  have hlogs : Logs (w.gens.insert g (.started b')) (w.written ++ []) := by
    refine logs_body hi.logs (fun a ha => by cases ha) (hreceived ▸ hsound) ?_ fun b₁ h₁ => ?_
    · rw [List.map_nil, List.append_nil]
      refine logged_congr (hi.logs.started hg).2 hid hargs hreceived ?_ ?_
      · rw [hp]
        exact fun he => (by cases he)
      · rw [hp']
        exact fun he => (by cases he)
    · rw [hg, Option.some.injEq, Gen.started.injEq] at h₁
      rw [← h₁, hid]
  rwa [List.append_nil] at hlogs

theorem answer_inv {answer : Answer} (hi : Inv w) (h : w.answer t answer = some w') : Inv w' := by
  simp only [World.answer, Option.bind_eq_bind, Option.bind_eq_some_iff] at h
  obtain ⟨c, hc, g, htop, gen, hg, h⟩ := h
  cases gen with
  | fresh args => cases h
  | spent => cases h
  | started b =>
    obtain ⟨hsound, hlogged⟩ := hi.logs.started hg
    dsimp only at h
    split at h
    · rename_i hp
      cases answer with
      | output output =>
        simp only [Option.some.injEq] at h
        subst h
        refine ⟨placed_pop hi.placed hc htop rfl, ?_⟩
        refine logs_body hi.logs (fun a ha => ?_) ?_ (logged_take hlogged hsound hp output)
          fun b₁ h₁ => ?_
        · rw [List.mem_singleton] at ha
          subst ha
          exact ⟨rfl, fun _ _ _ he => (by cases he)⟩
        · have htake := sound_take hsound hp output
          exact htake.received ▸ htake
        · have he : b = b₁ := by
            rw [← Gen.started.injEq, ← Option.some.injEq, ← hg]
            exact h₁
          rw [← he]
          rfl
      | stop =>
        simp only [Option.some.injEq] at h
        subst h
        exact leave_inv hi hc htop hg hp rfl (sound_stop hsound hp) rfl rfl
      | raised error =>
        simp only [Option.some.injEq] at h
        subst h
        exact leave_inv hi hc htop hg hp rfl (sound_raised hsound hp error) rfl rfl
    · cases h

theorem closed_inv {error : Option PyError} (hi : Inv w) (h : w.closed t error = some w') :
    Inv w' := by
  simp only [World.closed, Option.bind_eq_bind, Option.bind_eq_some_iff] at h
  obtain ⟨c, hc, g, htop, gen, hg, h⟩ := h
  cases gen with
  | fresh args => cases h
  | spent => cases h
  | started b =>
    obtain ⟨hsound, hlogged⟩ := hi.logs.started hg
    dsimp only at h
    split at h
    · rename_i t' after hp
      split at h
      · simp only [Option.some.injEq] at h
        subst h
        refine ⟨placed_pop hi.placed hc htop rfl, ?_⟩
        refine logs_body hi.logs (fun a ha => ?_) ?_ (logged_close hlogged hp error) fun b₁ h₁ => ?_
        · rw [List.mem_singleton] at ha
          subst ha
          exact ⟨rfl, fun _ _ _ he => (by cases he)⟩
        · exact sound_close hsound hp error
        · have he : b = b₁ := by
            rw [← Gen.started.injEq, ← Option.some.injEq, ← hg]
            exact h₁
          rw [← he]
          rfl
      · cases h
    · cases h

/-- `linkRequest` changes the engine's request ids of one state. -/
theorem linkRequest_inv (hi : Inv w) (active : Option Nat) (internalId : String) :
    Inv (w.linkRequest active internalId) ∧ (w.linkRequest active internalId).tasks = w.tasks := by
  unfold World.linkRequest
  cases active with
  | none => exact ⟨hi, rfl⟩
  | some g =>
    dsimp only
    split
    · rename_i b hg
      obtain ⟨hsound, hlogged⟩ := hi.logs.started hg
      refine ⟨⟨placed_restate hi.placed (fun b' he => ?_) fun b₁ _ => ⟨_, rfl⟩, ?_⟩, rfl⟩
      · rw [Gen.started.injEq] at he
        exact ⟨b, hg, by rw [← he]⟩
      · have hlogs : Logs (w.gens.insert g (.started { b with state :=
            { b.state with engineRequestIds := b.state.engineRequestIds ++ [internalId] } }))
            (w.written ++ []) := by
          refine logs_body hi.logs (fun a ha => by cases ha) (sound_link hsound _) ?_
            fun b₁ h₁ => ?_
          · rw [List.map_nil, List.append_nil]
            exact logged_link hlogged _
          · rw [hg, Option.some.injEq, Gen.started.injEq] at h₁
            rw [← h₁]
        rwa [List.append_nil] at hlogs
    · exact ⟨hi, rfl⟩

/-- The state that `active` holds keeps its capture id. -/
theorem stateOf_linkRequest {b : Body} (hg : w.gens.get? g = some (.started b))
    (internalId : String) :
    ∃ b', (w.linkRequest (some g) internalId).gens.get? g = some (.started b') ∧
      b'.state.captureId = b.state.captureId := by
  simp only [World.linkRequest, hg]
  exact ⟨_, FinMap.get?_insert_self _ _ _, rfl⟩

theorem addRequest_inv {request : Request} (hi : Inv w) (h : w.addRequest t request = some w') :
    Inv w' := by
  simp only [World.addRequest, Option.bind_eq_bind, Option.bind_eq_some_iff,
    Option.some.injEq] at h
  obtain ⟨c, hc, rfl⟩ := h
  obtain ⟨hlinked, _⟩ := linkRequest_inv hi c.value request.requestId
  refine ⟨hlinked.placed, logs_other hlinked.logs rfl fun link ids same g hrecord htop => ?_⟩
  -- the task runs `g`, so its context holds the state of `g`
  have hvalue : c.value = some g := (hi.placed.balanced hc).value htop
  obtain ⟨b, hb, _⟩ := hi.placed.held hc (ContextVar.held_of_top htop ▸ List.mem_cons_self)
  obtain ⟨b', hb', hid⟩ := stateOf_linkRequest hb request.requestId
  rw [Record.engineLink.injEq] at hrecord
  refine ⟨b', ?_, ?_⟩
  · rw [hvalue]
    exact hb'
  · rw [← hrecord.1, hid]
    simp only [World.stateOf, hvalue, Option.bind_some, hb, Option.map_some]

theorem settled_inv {p : Pending} {error : Option PyError} (hi : Inv w)
    (h : w.settled p error = some w') : Inv w' := by
  unfold World.settled at h
  split at h
  · have hother : ∀ record : Record, (∀ link ids same, record ≠ .engineLink link ids same) →
        Inv (({ w with pending := w.pending.erase p } : World).write none none record) :=
      fun record hrecord => ⟨hi.placed, logs_other hi.logs rfl fun link ids same _ he _ =>
        absurd he (hrecord link ids same)⟩
    cases p with
    | submit link =>
      cases error with
      | none =>
        cases h
        exact hother _ fun _ _ _ he => (by cases he)
      | some e =>
        cases h
        exact ⟨hi.placed, hi.logs⟩
    | abort fields =>
      cases error with
      | none =>
        cases h
        exact hother _ fun _ _ _ he => (by cases he)
      | some e =>
        cases h
        exact hother _ fun _ _ _ he => (by cases he)
  · cases h

theorem step_inv {event : Event} (hi : Inv w) (h : step w event = some w') : Inv w' := by
  cases event with
  | spawn t t' =>
    simp only [step] at h
    split at h
    · rename_i c _ ht'
      cases h
      exact ⟨placed_spawn hi.placed ht', hi.logs⟩
    · cases h
  | generate g args =>
    simp only [step] at h
    split at h
    · rename_i hg
      cases h
      have hnot : ∀ b, w.gens.get? g ≠ some (.started b) := fun b hb => by
        rw [hg] at hb
        cases hb
      exact ⟨placed_restate hi.placed (fun b' he => by cases he) fun b hb => absurd hb (hnot b),
        logs_unstarted hi.logs (fun b he => by cases he) hnot⟩
    · cases h
  | resume t g how captureId => exact resume_inv hi h
  | answer t answer => exact answer_inv hi h
  | closed t error => exact closed_inv hi h
  | addRequest t request => exact addRequest_inv hi h
  | abort t args callId =>
    simp only [step, World.abort, Option.bind_eq_bind, Option.bind_eq_some_iff,
      Option.some.injEq] at h
    obtain ⟨c, _, rfl⟩ := h
    exact ⟨hi.placed, logs_other hi.logs rfl fun _ _ _ _ he _ => (by cases he)⟩
  | settled p error => exact settled_inv hi h

theorem inv_run {events : List Event} (hrun : Runs.run step .start events = some w) : Inv w :=
  Runs.run_induction (fun _ _ _ hi h => step_inv hi h) inv_start hrun

end Step

/-! ## What a consumer, the engine and a reader of the capture see -/

/-- The state of `engine_result`: all that the outputs decide, and what it holds of each choice. -/
structure Reports (st : Capture) (b : Body) : Prop where
  state : st.shared = (Capture.new b.state.captureId b.args).after b.received
  delta : b.args.outputKind = some "DELTA" → ∀ i, st.outputs.get? i =
    if chunksOf i (choicesOf b.received) = [] then none
    else some (chunksOf i (choicesOf b.received)).flatten
  last : b.args.outputKind = some "CUMULATIVE" ∨ b.args.outputKind = some "FINAL_ONLY" →
    ∀ i, st.outputs.get? i = (chunksOf i (choicesOf b.received)).getLast?

/-- What the consumer is told at the end, and what the engine or the consumer did. -/
inductive Ends (b : Body) : Prop
  | drained : b.exchange.heard = b.received.map .output ++ [.stop] →
      b.exchange.told = b.received.map .yields ++ [.stops] → Ends b
  | raised (error : PyError) : b.exchange.heard = b.received.map .output ++ [.raised error] →
      b.exchange.told = b.received.map .yields ++ [.raises error] → Ends b
  | thrown (error : PyError) : b.exchange.heard = b.received.map .output →
      b.exchange.thrown = some error →
      b.exchange.told = b.received.map .yields ++ [.raises error] → Ends b

structure Truthful (b : Body) (calls : List Call) : Prop where
  yields : b.exchange.told.filterMap Told.output? = b.received
  records : ∃ last, calls = (enterRecord b.state.captureId b.args).call ::
      outputCalls (Capture.new b.state.captureId b.args) b.received ++ last ∧
    (b.phase ≠ .ended → last = []) ∧
    (b.phase = .ended → ∃ st, last = [(Record.engineResult st b.terminal).call] ∧ Reports st b)
  ends : b.phase = .ended → b.exchange.closeError = none → Ends b
  closes : b.phase = .ended → b.exchange.asked = anexts b.exchange.heard.length ++ [.aclose]
  terminal : b.phase = .ended → b.terminal = "finished" →
    (∃ output ∈ b.received, output.finished.truthy = true) ∧
      b.exchange.heard = b.received.map .output ++ [.stop] ∧ b.exchange.thrown = none

theorem reports_of_shared {b : Body} {st : Capture} (hsound : Sound b b.received)
    (hst : st.shared = b.state.shared) : Reports st b := by
  have hstate : st.shared = (Capture.new b.state.captureId b.args).after b.received :=
    hst.trans hsound.state
  have houtputs : st.outputs = ((Capture.new b.state.captureId b.args).after b.received).outputs := by
    rw [← hstate]
    rfl
  exact ⟨hstate, fun hkind i => houtputs ▸ outputs_delta hkind b.received i,
    fun hkind i => houtputs ▸ outputs_last hkind b.received i⟩

theorem truthful {b : Body} {calls : List Call} (hsound : Sound b b.received)
    (hlogged : Logged b calls) : Truthful b calls where
  yields := hsound.yields
  records := by
    obtain ⟨last, hcalls, hopen, hended⟩ := hlogged
    refine ⟨last, hcalls, hopen, fun hp => ?_⟩
    obtain ⟨st, hlast, hst, _⟩ := hended hp
    exact ⟨st, hlast, reports_of_shared hsound hst⟩
  ends := by
    intro hp hclose
    have hs := hsound.stands
    rw [hp] at hs
    obtain ⟨after, hleft, htold, _⟩ := hs
    rw [hclose] at htold
    cases hleft with
    | drained hheard _ _ _ => exact .drained hheard htold
    | raised error hheard _ _ _ => exact .raised error hheard htold
    | thrown error hheard hthrown _ _ => exact .thrown error hheard hthrown htold
  closes := by
    intro hp
    have hs := hsound.stands
    rw [hp] at hs
    exact hs.choose_spec.2.2
  terminal := by
    intro hp hterminal
    have hs := hsound.stands
    rw [hp] at hs
    obtain ⟨after, hleft, _⟩ := hs
    obtain ⟨hfinished, rfl⟩ := hleft.finished hterminal
    cases hleft with
    | drained hheard hthrown _ _ => exact ⟨hfinished, hheard, hthrown⟩

/-- Nothing gets stuck: every task can resume every generator, a body that runs is held by its
task, and what a task runs takes every answer it waits for. -/
structure Live (w : World) : Prop where
  resumes : ∀ {t g c gen}, w.tasks.get? t = some c → w.gens.get? g = some gen →
    ∀ how captureId, (step w (.resume t g how captureId)).isSome
  runs : ∀ {g b t}, w.gens.get? g = some (.started b) → b.phase.task? = some t →
    ∃ c, w.tasks.get? t = some c ∧ g ∈ c.held
  answers : ∀ {t c g}, w.tasks.get? t = some c → c.top = some g →
    (∀ a, (step w (.answer t a)).isSome) ∨ ∀ error, (step w (.closed t error)).isSome

theorem live {w : World} (hi : Inv w) : Live w where
  resumes := by
    intro t g c gen hc hg how captureId
    simp only [step, World.resume, hc, hg, Option.bind_eq_bind, Option.bind_some]
    cases gen with
    | fresh args => cases how <;> rfl
    | spent => rfl
    | started b => cases hp : b.phase <;> simp [hp]
  runs := hi.placed.runs
  answers := by
    intro t c g hc htop
    obtain ⟨b, hb, hrun⟩ := hi.placed.held hc (ContextVar.held_of_top htop ▸ List.mem_cons_self)
    cases hp : b.phase with
    | advancing t' =>
      rw [hp, Phase.task?, Option.some.injEq] at hrun
      refine Or.inl fun a => ?_
      simp only [step, World.answer, hc, htop, hb, Option.bind_eq_bind, Option.bind_some, hp, hrun,
        if_pos]
      cases a <;> rfl
    | closing t' after =>
      rw [hp, Phase.task?, Option.some.injEq] at hrun
      refine Or.inr fun error => ?_
      simp only [step, World.closed, hc, htop, hb, Option.bind_eq_bind, Option.bind_some, hp, hrun,
        if_pos]
      rfl
    | yielded =>
      rw [hp] at hrun
      cases hrun
    | ended =>
      rw [hp] at hrun
      cases hrun

/-- **The capture changes nothing that consumers and the engine see, and writes what they do**: for
every wrapped generator in every interleaving, the yields, the end, the calls of the engine, the
records and `terminal`; and what is linked while a generator runs is linked to it. -/
theorem capture_transparent {events : List Event} {w : World}
    (hrun : Runs.run step .start events = some w) :
    (∀ g b, w.gens.get? g = some (.started b) → Truthful b (callsOf g w.written)) ∧
      (∀ g, (∀ b, w.gens.get? g ≠ some (.started b)) → callsOf g w.written = []) ∧
      (∀ a ∈ w.written, ∀ link ids same g, a.record = .engineLink link ids same →
        a.inside = some g →
        ∃ b, w.gens.get? g = some (.started b) ∧ link.captureId = some b.state.captureId) ∧
      Live w := by
  have hi := inv_run hrun
  refine ⟨fun g b hg => ?_, fun g hg => hi.logs.silent hg, ?_, live hi⟩
  · obtain ⟨hsound, hlogged⟩ := hi.logs.started hg
    exact truthful hsound hlogged
  · exact fun a ha link ids same g hrecord hinside => hi.logs.links ha hrecord hinside

/-- Two requests in two tasks: the first streams two deltas to its end; the second is closed by its
consumer while the first one runs. -/
def exampleEvents : List Event :=
  let args (requestId : String) : Args :=
    ⟨1, requestId, [("prompt_token_ids", .list [.int 5])], some "DELTA", [], none⟩
  let output (ids : List Int) (finished : Bool) : Output :=
    ⟨.str "r", [⟨0, some ids, .null⟩], .null, .null, [], none, .bool finished⟩
  let request (requestId : String) : Request := ⟨1, requestId, .str "r", .list [.int 5]⟩
  [.spawn 0 1, .generate 0 (args "r"), .generate 1 (args "s"),
    .resume 0 0 .next "a", .resume 1 1 .next "b", .addRequest 0 (request "r-0"),
    .addRequest 1 (request "s-0"), .answer 1 (.output (output [7] false)),
    .answer 0 (.output (output [1] false)), .resume 0 0 .next "", .resume 1 1 .close "",
    .answer 0 (.output (output [2, 3] true)), .closed 1 none, .resume 0 0 .next "",
    .answer 0 .stop, .closed 0 none]

theorem capture_transparent_example : ∃ w, Runs.run step .start exampleEvents = some w ∧
    (w.written.map fun a => (a.writer, a.record.call.kind)) =
      [(some 0, "engine_enter"), (some 1, "engine_enter"), (none, "engine_link"),
        (none, "engine_link"), (some 1, "engine_output"), (some 0, "engine_output"),
        (some 0, "engine_output"), (some 1, "engine_result"), (some 0, "engine_result")] ∧
    ∀ g b, w.gens.get? g = some (.started b) → Truthful b (callsOf g w.written) := by
  have hsome : (Runs.run step .start exampleEvents).isSome = true := by decide +kernel
  obtain ⟨w, hw⟩ := Option.isSome_iff_exists.1 hsome
  have hkinds : (Runs.run step .start exampleEvents).map
      (fun w => w.written.map fun a => (a.writer, a.record.call.kind)) =
      some [(some 0, "engine_enter"), (some 1, "engine_enter"), (none, "engine_link"),
        (none, "engine_link"), (some 1, "engine_output"), (some 0, "engine_output"),
        (some 0, "engine_output"), (some 1, "engine_result"), (some 0, "engine_result")] := by
    decide +kernel
  rw [hw, Option.map_some, Option.some.injEq] at hkinds
  exact ⟨w, hw, hkinds, (capture_transparent hw).1⟩

end ReedCode.CaptureWorker.Generate
