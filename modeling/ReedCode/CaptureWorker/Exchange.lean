import ReedCode.CaptureWorker.Generate

/-!
# The exchange of one wrapped generator

* `Capture.after` — `state` after some outputs; `outputs_delta` and `outputs_last` tell what it holds
  of each choice.
* `Sound` — what the body has asked, heard and told, and its local variables, at each place where it
  stands.
* `sound_advance`, `sound_take`, `sound_stop`, `sound_raised`, `sound_thrown`, `sound_close` — every
  stretch of the body keeps it.
-/

set_option autoImplicit false

namespace ReedCode.CaptureWorker.Generate

/-! ## What the outputs leave in `state` -/

/-- The token ids that came for a choice, in order. -/
def chunksOf (i : Int) (choices : List Choice) : List (List Int) :=
  (choices.filter fun choice => choice.index = i).map Choice.ids

/-- All choices of some outputs. -/
def choicesOf (outs : List Output) : List Choice := outs.flatMap Output.outputs

/-- `state` after some outputs. -/
def Capture.after (st : Capture) (outs : List Output) : Capture := outs.foldl Capture.take st

theorem Capture.after_append (st : Capture) (outs outs' : List Output) :
    st.after (outs ++ outs') = (st.after outs).after outs' := List.foldl_append

theorem Capture.outputs_after : ∀ (outs : List Output) (st : Capture),
    (st.after outs).outputs = (choicesOf outs).foldl (addChoice st.outputKind) st.outputs ∧
      (st.after outs).outputKind = st.outputKind
  | [], _ => ⟨rfl, rfl⟩
  | output :: outs, st => by
    have h := Capture.outputs_after outs (st.take output)
    refine ⟨?_, h.2⟩
    rw [choicesOf, List.flatMap_cons, List.foldl_append]
    exact h.1

/-- One choice, as a look-up sees it. -/
theorem get?_addChoice_delta (m : FinMap Int (List Int)) (choice : Choice) (i : Int) :
    (addChoice (some "DELTA") m choice).get? i =
      if choice.index = i then some ((m.get? i).getD [] ++ choice.ids) else m.get? i := by
  rw [addChoice, if_pos rfl, FinMap.get?_insert]
  by_cases h : choice.index = i
  · rw [if_pos h, if_pos h, h]
  · rw [if_neg h, if_neg h]

theorem get?_addChoice_last {kind : Option String} (hdelta : kind ≠ some "DELTA")
    (hkind : kind = some "CUMULATIVE" ∨ kind = some "FINAL_ONLY")
    (m : FinMap Int (List Int)) (choice : Choice) (i : Int) :
    (addChoice kind m choice).get? i = if choice.index = i then some choice.ids else m.get? i := by
  rw [addChoice, if_neg hdelta, if_pos hkind, FinMap.get?_insert]

theorem chunksOf_cons (i : Int) (choice : Choice) (choices : List Choice) :
    chunksOf i (choice :: choices) =
      if choice.index = i then choice.ids :: chunksOf i choices else chunksOf i choices := by
  unfold chunksOf
  by_cases h : choice.index = i
  · rw [if_pos h, List.filter_cons_of_pos (by simp [h]), List.map_cons]
  · rw [if_neg h, List.filter_cons_of_neg (by simp [h])]

theorem get?_foldl_delta (i : Int) : ∀ (choices : List Choice) (m : FinMap Int (List Int)),
    (choices.foldl (addChoice (some "DELTA")) m).get? i =
      if chunksOf i choices = [] then m.get? i
      else some ((m.get? i).getD [] ++ (chunksOf i choices).flatten)
  | [], m => rfl
  | choice :: choices, m => by
    rw [List.foldl_cons, get?_foldl_delta i choices, get?_addChoice_delta, chunksOf_cons]
    by_cases h : choice.index = i
    · simp only [if_pos h, if_neg (List.cons_ne_nil _ _), List.flatten_cons, Option.getD_some]
      by_cases hrest : chunksOf i choices = []
      · rw [if_pos hrest, hrest, List.flatten_nil, List.append_nil]
      · rw [if_neg hrest, List.append_assoc]
    · simp only [if_neg h]

theorem get?_foldl_last {kind : Option String} (hdelta : kind ≠ some "DELTA")
    (hkind : kind = some "CUMULATIVE" ∨ kind = some "FINAL_ONLY") (i : Int) :
    ∀ (choices : List Choice) (m : FinMap Int (List Int)),
      (choices.foldl (addChoice kind) m).get? i = (chunksOf i choices).getLast?.or (m.get? i)
  | [], m => rfl
  | choice :: choices, m => by
    rw [List.foldl_cons, get?_foldl_last hdelta hkind i choices,
      get?_addChoice_last hdelta hkind, chunksOf_cons]
    by_cases h : choice.index = i
    · rw [if_pos h, if_pos h, List.getLast?_cons]
      cases (chunksOf i choices).getLast? <;> rfl
    · rw [if_neg h, if_neg h]

/-- **Of a `DELTA` request each choice holds its chunks, one behind the other.** -/
theorem outputs_delta {captureId : String} {args : Args} (hkind : args.outputKind = some "DELTA")
    (outs : List Output) (i : Int) :
    (((Capture.new captureId args).after outs).outputs.get? i) =
      if chunksOf i (choicesOf outs) = [] then none
      else some (chunksOf i (choicesOf outs)).flatten := by
  rw [(Capture.outputs_after outs _).1, show (Capture.new captureId args).outputKind = _ from hkind,
    get?_foldl_delta]
  rfl

/-- **Of a `CUMULATIVE` or `FINAL_ONLY` request each choice holds its last chunk.** -/
theorem outputs_last {captureId : String} {args : Args}
    (hkind : args.outputKind = some "CUMULATIVE" ∨ args.outputKind = some "FINAL_ONLY")
    (outs : List Output) (i : Int) :
    ((Capture.new captureId args).after outs).outputs.get? i =
      (chunksOf i (choicesOf outs)).getLast? := by
  have hdelta : args.outputKind ≠ some "DELTA" := by
    rcases hkind with h | h <;> rw [h] <;> decide
  rw [(Capture.outputs_after outs _).1]
  refine (get?_foldl_last hdelta hkind i _ _).trans ?_
  exact Option.or_none

/-- What the outputs alone decide of `state`. -/
def Capture.shared (st : Capture) : Capture := { st with engineRequestIds := [], error := none }

theorem Capture.shared_take (st : Capture) (output : Output) :
    (st.take output).shared = st.shared.take output := rfl

/-! ## What stands at each place -/

/-- The terminal state of a generator that nothing has ended. -/
def reachedTerminal (outs : List Output) : String :=
  if outs.any fun output => output.finished.truthy then "finished" else "stream_ended_without_finished"

def anexts (n : Nat) : List Ask := List.replicate n .anext

/-- How a body leaves its loop: the engine stops, the engine raises, or the consumer does. -/
inductive Left (b : Body) (outs : List Output) : Told → Prop
  | drained : b.exchange.heard = outs.map .output ++ [.stop] → b.exchange.thrown = none →
      b.terminal = reachedTerminal outs → b.state.error = none → Left b outs .stops
  | raised (error : PyError) : b.exchange.heard = outs.map .output ++ [.raised error] →
      b.exchange.thrown = none → b.terminal = error.terminal →
      b.state.error = some (error.typeName, error.text) → Left b outs (.raises error)
  | thrown (error : PyError) : b.exchange.heard = outs.map .output →
      b.exchange.thrown = some error → b.terminal = error.terminal →
      b.state.error = some (error.typeName, error.text) → Left b outs (.raises error)

/-- In the loop: nothing but outputs has come, and all of them were yielded. -/
structure Looping (b : Body) (outs : List Output) : Prop where
  heard : b.exchange.heard = outs.map .output
  told : b.exchange.told = outs.map .yields
  thrown : b.exchange.thrown = none
  closeError : b.exchange.closeError = none
  terminal : b.terminal = reachedTerminal outs
  error : b.state.error = none

/-- **What a body has done**, given the outputs that came. -/
def Stands (b : Body) (outs : List Output) : Phase → Prop
  | .advancing _ => Looping b outs ∧ b.exchange.asked = anexts (outs.length + 1)
  | .yielded => Looping b outs ∧ b.exchange.asked = anexts outs.length
  | .closing _ after => Left b outs after ∧ b.exchange.told = outs.map .yields ∧
      b.exchange.closeError = none ∧
      b.exchange.asked = anexts b.exchange.heard.length ++ [.aclose]
  | .ended => ∃ after, Left b outs after ∧
      b.exchange.told = outs.map .yields ++ [(b.exchange.closeError.map Told.raises).getD after] ∧
      b.exchange.asked = anexts b.exchange.heard.length ++ [.aclose]

structure Sound (b : Body) (outs : List Output) : Prop where
  state : b.state.shared = (Capture.new b.state.captureId b.args).after outs
  stands : Stands b outs b.phase

/-! ## Every stretch of the body -/

theorem anexts_succ (n : Nat) : anexts n ++ [.anext] = anexts (n + 1) :=
  List.replicate_succ'.symm

theorem sound_new (captureId : String) (args : Args) : Sound (Body.new captureId args) [] where
  state := rfl
  stands := ⟨⟨rfl, rfl, rfl, rfl, rfl, rfl⟩, rfl⟩

theorem sound_advance {b : Body} {outs : List Output} (h : Sound b outs) (hp : b.phase = .yielded)
    (t : Nat) : Sound (b.advance t) outs where
  state := h.state
  stands := by
    have hs := h.stands
    rw [hp] at hs
    obtain ⟨hloop, hasked⟩ := hs
    refine ⟨⟨hloop.heard, hloop.told, hloop.thrown, hloop.closeError, hloop.terminal,
      hloop.error⟩, ?_⟩
    change b.exchange.asked ++ [Ask.anext] = _
    rw [hasked, anexts_succ]

theorem reachedTerminal_append (outs : List Output) (output : Output) :
    reachedTerminal (outs ++ [output]) =
      if output.finished.truthy then "finished" else reachedTerminal outs := by
  unfold reachedTerminal
  rw [List.any_append, List.any_cons, List.any_nil, Bool.or_false]
  cases output.finished.truthy <;> simp

theorem sound_take {b : Body} {outs : List Output} {t : Nat} (h : Sound b outs)
    (hp : b.phase = .advancing t) (output : Output) : Sound (b.take output) (outs ++ [output]) where
  state := by
    rw [Capture.after_append]
    exact congrArg (fun st : Capture => st.take output) h.state
  stands := by
    have hs := h.stands
    rw [hp] at hs
    obtain ⟨hloop, hasked⟩ := hs
    refine ⟨⟨?_, ?_, hloop.thrown, hloop.closeError, ?_, hloop.error⟩, ?_⟩
    · rw [List.map_append, ← hloop.heard]
      rfl
    · rw [List.map_append, ← hloop.told]
      rfl
    · rw [reachedTerminal_append, ← hloop.terminal]
      rfl
    · rw [List.length_append]
      exact hasked

theorem sound_stop {b : Body} {outs : List Output} {t : Nat} (h : Sound b outs)
    (hp : b.phase = .advancing t) :
    Sound ({ b with exchange := b.exchange.hear .stop }.finish t .stops) outs where
  state := h.state
  stands := by
    have hs := h.stands
    rw [hp] at hs
    obtain ⟨hloop, hasked⟩ := hs
    have hheard : b.exchange.heard ++ [Answer.stop] = outs.map .output ++ [.stop] := by
      rw [hloop.heard]
    refine ⟨.drained hheard hloop.thrown hloop.terminal hloop.error, hloop.told,
      hloop.closeError, ?_⟩
    change b.exchange.asked ++ [Ask.aclose] = anexts (b.exchange.heard ++ [Answer.stop]).length ++ _
    rw [hasked, hheard, List.length_append, List.length_map]
    rfl

theorem sound_raised {b : Body} {outs : List Output} {t : Nat} (h : Sound b outs)
    (hp : b.phase = .advancing t) (error : PyError) :
    Sound ({ b with exchange := b.exchange.hear (.raised error) }.fail t error) outs where
  state := h.state
  stands := by
    have hs := h.stands
    rw [hp] at hs
    obtain ⟨hloop, hasked⟩ := hs
    have hheard : b.exchange.heard ++ [Answer.raised error] = outs.map .output ++ [.raised error] := by
      rw [hloop.heard]
    refine ⟨.raised error hheard hloop.thrown rfl rfl, hloop.told, hloop.closeError, ?_⟩
    change b.exchange.asked ++ [Ask.aclose] =
      anexts (b.exchange.heard ++ [Answer.raised error]).length ++ _
    rw [hasked, hheard, List.length_append, List.length_map]
    rfl

theorem sound_thrown {b : Body} {outs : List Output} (h : Sound b outs) (hp : b.phase = .yielded)
    (t : Nat) (error : PyError) :
    Sound ({ b with exchange := { b.exchange with thrown := some error } }.fail t error) outs where
  state := h.state
  stands := by
    have hs := h.stands
    rw [hp] at hs
    obtain ⟨hloop, hasked⟩ := hs
    refine ⟨.thrown error hloop.heard rfl rfl rfl, hloop.told, hloop.closeError, ?_⟩
    change b.exchange.asked ++ [Ask.aclose] = anexts b.exchange.heard.length ++ _
    rw [hasked, hloop.heard, List.length_map]

/-- How the body has left its loop stays, whatever the other fields become. -/
theorem Left.congr {b b' : Body} {outs : List Output} {after : Told} (h : Left b outs after)
    (hheard : b'.exchange.heard = b.exchange.heard)
    (hthrown : b'.exchange.thrown = b.exchange.thrown) (hterminal : b'.terminal = b.terminal)
    (herror : b'.state.error = b.state.error) : Left b' outs after := by
  cases h with
  | drained h₁ h₂ h₃ h₄ =>
    exact .drained (hheard.trans h₁) (hthrown.trans h₂) (hterminal.trans h₃) (herror.trans h₄)
  | raised error h₁ h₂ h₃ h₄ =>
    exact .raised error (hheard.trans h₁) (hthrown.trans h₂) (hterminal.trans h₃)
      (herror.trans h₄)
  | thrown error h₁ h₂ h₃ h₄ =>
    exact .thrown error (hheard.trans h₁) (hthrown.trans h₂) (hterminal.trans h₃)
      (herror.trans h₄)

theorem sound_close {b : Body} {outs : List Output} {t : Nat} {after : Told} (h : Sound b outs)
    (hp : b.phase = .closing t after) (error : Option PyError) :
    Sound (b.close after error) outs where
  state := h.state
  stands := by
    have hs := h.stands
    rw [hp] at hs
    obtain ⟨hleft, htold, _, hasked⟩ := hs
    refine ⟨after, hleft.congr rfl rfl rfl rfl, ?_, hasked⟩
    change b.exchange.told ++ _ = _
    rw [htold]
    rfl

/-- The engine's request ids do not matter. -/
theorem sound_link {b : Body} {outs : List Output} (h : Sound b outs) (ids : List String) :
    Sound { b with state := { b.state with engineRequestIds := ids } } outs where
  state := h.state
  stands := by
    have hs := h.stands
    cases hp : b.phase with
    | advancing t =>
      rw [hp] at hs
      exact ⟨⟨hs.1.heard, hs.1.told, hs.1.thrown, hs.1.closeError, hs.1.terminal, hs.1.error⟩, hs.2⟩
    | yielded =>
      rw [hp] at hs
      exact ⟨⟨hs.1.heard, hs.1.told, hs.1.thrown, hs.1.closeError, hs.1.terminal, hs.1.error⟩, hs.2⟩
    | closing t after =>
      rw [hp] at hs
      exact ⟨hs.1.congr rfl rfl rfl rfl, hs.2⟩
    | ended =>
      rw [hp] at hs
      obtain ⟨after, hleft, hrest⟩ := hs
      exact ⟨after, hleft.congr rfl rfl rfl rfl, hrest⟩

/-! ## The outputs that came -/

def Answer.output? : Answer → Option Output
  | .output o => some o
  | _ => none

def Told.output? : Told → Option Output
  | .yields o => some o
  | _ => none

/-- The outputs that the engine gave. -/
def Body.received (b : Body) : List Output := b.exchange.heard.filterMap Answer.output?

theorem filterMap_heard (outs : List Output) :
    (outs.map Answer.output).filterMap Answer.output? = outs := by
  rw [List.filterMap_map]
  exact List.filterMap_some

theorem filterMap_told (outs : List Output) :
    (outs.map Told.yields).filterMap Told.output? = outs := by
  rw [List.filterMap_map]
  exact List.filterMap_some

theorem Looping.received {b : Body} {outs : List Output} (h : Looping b outs) :
    b.received = outs := by
  rw [Body.received, h.heard, filterMap_heard]

theorem Left.received {b : Body} {outs : List Output} {after : Told} (h : Left b outs after) :
    b.received = outs := by
  unfold Body.received
  cases h with
  | drained hheard _ _ _ =>
    rw [hheard, List.filterMap_append, filterMap_heard]
    exact List.append_nil _
  | raised error hheard _ _ _ =>
    rw [hheard, List.filterMap_append, filterMap_heard]
    exact List.append_nil _
  | thrown error hheard _ _ _ => rw [hheard, filterMap_heard]

theorem Left.silent {b : Body} {outs : List Output} {after : Told} (h : Left b outs after) :
    after.output? = none := by
  cases h <;> rfl

theorem Sound.received {b : Body} {outs : List Output} (h : Sound b outs) : b.received = outs := by
  have hs := h.stands
  cases hp : b.phase with
  | advancing t =>
    rw [hp] at hs
    exact hs.1.received
  | yielded =>
    rw [hp] at hs
    exact hs.1.received
  | closing t after =>
    rw [hp] at hs
    exact hs.1.received
  | ended =>
    rw [hp] at hs
    obtain ⟨after, hleft, _⟩ := hs
    exact hleft.received

/-- **Wherever the body stands, it has yielded the outputs that came.** -/
theorem Sound.yields {b : Body} {outs : List Output} (h : Sound b outs) :
    b.exchange.told.filterMap Told.output? = outs := by
  have hs := h.stands
  cases hp : b.phase with
  | advancing t =>
    rw [hp] at hs
    rw [hs.1.told, filterMap_told]
  | yielded =>
    rw [hp] at hs
    rw [hs.1.told, filterMap_told]
  | closing t after =>
    rw [hp] at hs
    rw [hs.2.1, filterMap_told]
  | ended =>
    rw [hp] at hs
    obtain ⟨after, hleft, htold, _⟩ := hs
    rw [htold, List.filterMap_append, filterMap_told]
    have hlast : ((b.exchange.closeError.map Told.raises).getD after).output? = none := by
      cases b.exchange.closeError with
      | none => exact hleft.silent
      | some error => rfl
    rw [List.filterMap_cons_none hlast]
    exact List.append_nil _

theorem PyError.terminal_ne (error : PyError) : error.terminal ≠ "finished" := by
  unfold PyError.terminal
  split
  · decide
  · split <;> decide

/-- A request is `finished` only if an output was and the engine stopped by itself. -/
theorem Left.finished {b : Body} {outs : List Output} {after : Told} (h : Left b outs after)
    (hterminal : b.terminal = "finished") :
    (∃ output ∈ outs, output.finished.truthy = true) ∧ after = .stops := by
  cases h with
  | drained _ _ hreached _ =>
    refine ⟨?_, rfl⟩
    rw [hreached, reachedTerminal] at hterminal
    by_cases hany : outs.any (fun output => output.finished.truthy) = true
    · exact List.any_eq_true.1 hany
    · rw [if_neg hany] at hterminal
      exact absurd hterminal (by decide)
  | raised error _ _ hreached _ => exact absurd (hreached.symm.trans hterminal) error.terminal_ne
  | thrown error _ _ hreached _ => exact absurd (hreached.symm.trans hterminal) error.terminal_ne

end ReedCode.CaptureWorker.Generate
