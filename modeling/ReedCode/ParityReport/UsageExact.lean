import ReedCode.ParityReport.FinalUsage

/-!
# Usage of complete streams

* `AnthropicExact`, `ResponsesExact` — the usage is that of the final event of a complete stream,
  and of other streams none is known.
* `anthropicExact_iff`, `responsesExact_iff` — **when that is so**.
* `response_usage_exact` — with what is read of the bytes of a stream.
-/

set_option autoImplicit false

namespace ReedCode.ParityReport

open ThinkingStudy (utf8)

/-! ## Positions -/

section Positions

variable {α : Type} {p : α → Bool} {front back front' back' : List α} {x x' : α}

theorem findIdx_split (hfront : ∀ a ∈ front, p a = false) (hx : p x = true) :
    (front ++ x :: back).findIdx p = front.length := by
  have hlen : front.findIdx p = front.length := List.findIdx_eq_length.2 hfront
  rw [List.findIdx_append, hlen, if_neg (Nat.lt_irrefl _), List.findIdx_cons, hx, cond_true,
    Nat.zero_add]

/-- The last item that is found. -/
theorem exists_last : ∀ {items : List α}, items.any p = true →
    ∃ front x back, items = front ++ x :: back ∧ p x = true ∧ ∀ a ∈ back, p a = false
  | [], h => by cases h
  | a :: items, h => by
    by_cases hitems : items.any p = true
    · obtain ⟨front, x, back, rfl, hx, hback⟩ := exists_last hitems
      exact ⟨a :: front, x, back, rfl, hx, hback⟩
    · rw [List.any_cons, Bool.or_eq_true] at h
      refine ⟨[], a, items, rfl, h.resolve_right hitems, fun b hb => ?_⟩
      rw [Bool.not_eq_true, List.any_eq_false] at hitems
      exact Bool.eq_false_iff.2 (hitems b hb)

theorem last_index (hx : p x = true) (hback : ∀ a ∈ back, p a = false) :
    (front ++ x :: back).length - 1 - (front ++ x :: back).reverse.findIdx p = front.length := by
  have hrev : (front ++ x :: back).reverse = back.reverse ++ x :: front.reverse := by simp
  rw [hrev, findIdx_split (by simpa using hback) hx, List.length_reverse, List.length_append,
    List.length_cons]
  omega

/-- There is one last item. -/
theorem last_unique (hx : p x = true) (hback : ∀ a ∈ back, p a = false) (hx' : p x' = true)
    (hback' : ∀ a ∈ back', p a = false) (h : front ++ x :: back = front' ++ x' :: back') :
    front = front' ∧ x = x' ∧ back = back' := by
  have hlen : front.length = front'.length := by
    rw [← @last_index _ p front back x hx hback, h, last_index hx' hback']
  obtain ⟨hfront, hrest⟩ := List.append_inj h hlen
  exact ⟨hfront, List.cons.inj hrest⟩

/-- An item found once. -/
theorem exists_only {items : List α} (h : (items.filter p).length = 1) :
    ∃ front x back, items = front ++ x :: back ∧ p x = true ∧ (∀ a ∈ front, p a = false) ∧
      ∀ a ∈ back, p a = false := by
  obtain ⟨x, hx⟩ := List.length_eq_one_iff.1 h
  obtain ⟨front, back, rfl, hfront, hpx, hback⟩ := List.filter_eq_cons_iff.1 hx
  exact ⟨front, x, back, rfl, hpx, fun a ha => Bool.eq_false_iff.2 (hfront a ha),
    fun a ha => Bool.eq_false_iff.2 (List.filter_eq_nil_iff.1 hback a ha)⟩

end Positions

theorem indexOf_split (front back : List Value) (x : Value) :
    indexOf (front ++ x :: back) front.length =
      min front.length ((front ++ x :: back).findIdx fun event => event.pyEq x) := by
  rw [indexOf]
  congr 2
  funext event
  rw [List.getD_eq_getElem?_getD, List.getElem?_append_right le_rfl, Nat.sub_self,
    List.getElem?_cons_zero, Option.getD_some]

/-- Where no event in front is equal to it, an event is found in its place. -/
theorem indexOf_eq {front back : List Value} {x : Value} (h : ∀ event ∈ front, event.pyEq x = false) :
    indexOf (front ++ x :: back) front.length = front.length := by
  rw [indexOf_split]
  refine Nat.min_eq_left ?_
  rw [List.findIdx_append, List.findIdx_eq_length.2 h, if_neg (Nat.lt_irrefl _)]
  exact Nat.le_add_left ..

/-- An event is found in front of a place if one equal to it stands there. -/
theorem indexOf_lt {before rest front back : List Value} {x : Value}
    (h : front ++ x :: back = before ++ rest) (hlen : before.length ≤ front.length) :
    indexOf (front ++ x :: back) front.length < before.length ↔
      ∃ event ∈ before, event.pyEq x = true := by
  rw [indexOf_split, h, List.findIdx_append]
  constructor
  · intro hlt
    by_contra hnone
    push Not at hnone
    rw [List.findIdx_eq_length.2 fun event hevent => Bool.eq_false_iff.2 (hnone event hevent),
      if_neg (Nat.lt_irrefl _)] at hlt
    omega
  · rintro ⟨event, hevent, heq⟩
    have hfound : before.findIdx (fun event => event.pyEq x) < before.length :=
      List.findIdx_lt_length.2 ⟨event, hevent, heq⟩
    rw [if_pos hfound]
    exact (Nat.min_le_right ..).trans_lt hfound

/-! ## Messages streams -/

/-- One `message_stop`, and the last of the `message_delta` events in front of it. -/
structure Complete (events : List Value) : Prop where
  errorFree : events.any (hasType "error") = false
  oneStop : (events.filter (hasType "message_stop")).length = 1
  delta : events.any (hasType "message_delta") = true
  last : ∀ before stop after, events = before ++ stop :: after →
    hasType "message_stop" stop = true → after.any (hasType "message_delta") = false

def LastDelta (events : List Value) (final : Value) : Prop :=
  ∃ front back, events = front ++ final :: back ∧ hasType "message_delta" final = true ∧
    ∀ event ∈ back, hasType "message_delta" event = false

structure Usage.NoTokens (usage : Usage) : Prop where
  input : usage.inputTokens = none
  cached : usage.cachedTokens = none
  uncached : usage.uncachedTokens = none
  cacheWrite : usage.cacheWriteTokens = none
  output : usage.outputTokens = none

theorem Usage.unknown_noTokens : Usage.unknown.NoTokens := ⟨rfl, rfl, rfl, rfl, rfl⟩

/-- The status is `completed` for complete streams, the usage then that of the last
`message_delta`, and else no token count is known. -/
def AnthropicExact (L : Library) (raw : Bytes) (events : List Value) : Prop :=
  ∃ usage warnings, responseUsage L raw (.str "anthropic") = .ok (usage, warnings) ∧
    (usage.terminalStatus = some "completed" ↔ Complete events) ∧
    (Complete events → ∀ final, LastDelta events final → usage = anthropicUsage final) ∧
    (¬ Complete events → usage.NoTokens)

/-- In a complete stream the fields of the last `message_delta` can be read, and where it stands
behind the only `message_stop` no event in front of that is equal to it. -/
structure AnthropicHolds (events : List Value) : Prop where
  readable : Complete events → ∀ final, LastDelta events final → AnthropicReadable final
  unrepeated : events.any (hasType "error") = false →
    (events.filter (hasType "message_stop")).length = 1 →
    ∀ before stop between final back, events = before ++ stop :: (between ++ final :: back) →
      hasType "message_stop" stop = true → hasType "message_delta" final = true →
      (∀ event ∈ back, hasType "message_delta" event = false) →
      ∀ event ∈ before, event.pyEq final = false

section Anthropic

variable {L : Library} {raw : Bytes} {events : List Value}

theorem responseUsage_error (h : sseEvents L raw = .ok events)
    (herror : events.any (hasType "error") = true) (protocol : Value) :
    responseUsage L raw protocol = .ok ({ Usage.unknown with terminalStatus := some "failed" },
      ["Server returned an error event"]) := by
  rw [responseUsage, h]
  simp only [herror, if_true]
  rfl

theorem responseUsage_anthropic (h : sseEvents L raw = .ok events)
    (herror : events.any (hasType "error") = false) :
    responseUsage L raw (.str "anthropic") =
      let stop := events.findIdx (hasType "message_stop")
      let delta := events.length - 1 - events.reverse.findIdx (hasType "message_delta")
      if (events.filter (hasType "message_stop")).length ≠ 1 ∨
          events.any (hasType "message_delta") = false ∨ indexOf events stop < indexOf events delta then
        .ok (.unknown, ["Missing final Anthropic message_delta/message_stop pair"])
      else finalAnthropic (events.getD delta .null) := by
  have hprotocol : ¬ Value.str "anthropic" = .str "responses" := by decide
  rw [responseUsage, h]
  simp only [herror, Bool.false_eq_true, if_false, hprotocol, if_true]
  split <;> rfl

theorem hasType_ne {event : Value} {type type' : String} (h : hasType type event = true)
    (hne : type ≠ type') : hasType type' event = false := by
  rw [Bool.eq_false_iff]
  intro h'
  rw [hasType_iff] at h h'
  rw [h, Option.some.injEq, Value.str.injEq] at h'
  exact hne h'

theorem Usage.failed_noTokens :
    ({ Usage.unknown with terminalStatus := some "failed" } : Usage).NoTokens :=
  ⟨rfl, rfl, rfl, rfl, rfl⟩

/-- Streams that are not complete, and of which no usage is known. -/
theorem anthropicExact_of_unknown {usage : Usage} {warnings : List String}
    (hcode : responseUsage L raw (.str "anthropic") = .ok (usage, warnings))
    (hstatus : usage.terminalStatus ≠ some "completed") (htokens : usage.NoTokens)
    (hincomplete : ¬ Complete events) : AnthropicExact L raw events :=
  ⟨usage, warnings, hcode, iff_of_false hstatus hincomplete, fun hc => absurd hc hincomplete,
    fun _ => htokens⟩

/-- The stop of a stream and its last delta. -/
structure Placed (events before after front back : List Value) (stop final : Value) : Prop where
  stopAt : events = before ++ stop :: after
  stop : hasType "message_stop" stop = true
  beforeStop : ∀ event ∈ before, hasType "message_stop" event = false
  afterStop : ∀ event ∈ after, hasType "message_stop" event = false
  finalAt : events = front ++ final :: back
  final : hasType "message_delta" final = true
  afterFinal : ∀ event ∈ back, hasType "message_delta" event = false

namespace Placed

variable {before after front back : List Value} {stop final : Value}

theorem final_unique (hp : Placed events before after front back stop final)
    {front' back' : List Value} {final' : Value} (h : events = front' ++ final' :: back')
    (hfinal : hasType "message_delta" final' = true)
    (hback : ∀ event ∈ back', hasType "message_delta" event = false) : final' = final :=
  (last_unique hfinal hback hp.final hp.afterFinal (h.symm.trans hp.finalAt)).2.1

theorem stop_unique (hp : Placed events before after front back stop final)
    {before' after' : List Value} {stop' : Value} (h : events = before' ++ stop' :: after')
    (hstop : hasType "message_stop" stop' = true) : before' = before ∧ after' = after := by
  have hafter : ∀ event ∈ after', hasType "message_stop" event = false := by
    have hfilter : events.filter (hasType "message_stop") = [stop] := by
      rw [hp.stopAt, List.filter_append, List.filter_cons_of_pos hp.stop,
        List.filter_eq_nil_iff.2 fun event hevent => by simp [hp.beforeStop event hevent],
        List.filter_eq_nil_iff.2 fun event hevent => by simp [hp.afterStop event hevent],
        List.nil_append]
    have hlen := congrArg List.length hfilter
    rw [h, List.filter_append, List.filter_cons_of_pos hstop, List.length_append, List.length_cons,
      List.length_singleton] at hlen
    have hnil : after'.filter (hasType "message_stop") = [] :=
      List.length_eq_zero_iff.1 (by omega)
    exact fun event hevent => Bool.eq_false_iff.2 (List.filter_eq_nil_iff.1 hnil event hevent)
  obtain ⟨hbefore, -, hrest⟩ :=
    last_unique hstop hafter hp.stop hp.afterStop (h.symm.trans hp.stopAt)
  exact ⟨hbefore, hrest⟩

/-- The last delta stands in front of the stop or behind it. -/
theorem order (hp : Placed events before after front back stop final) :
    (∃ between, before = front ++ final :: between ∧ back = between ++ stop :: after) ∨
      ∃ between, front = before ++ stop :: between ∧ after = between ++ final :: back := by
  have hne : final ≠ stop := by
    rintro rfl
    have htype : hasType "message_stop" final = false := hasType_ne hp.final (by decide)
    rw [hp.stop] at htype
    cases htype
  rcases List.append_eq_append_iff.1 (hp.finalAt.symm.trans hp.stopAt) with
    ⟨as, hbefore, hrest⟩ | ⟨as, hfront, hrest⟩
  · left
    cases as with
    | nil => exact absurd (List.cons.inj hrest).1 hne
    | cons event between =>
      obtain ⟨rfl, hback⟩ := List.cons.inj hrest
      exact ⟨between, hbefore, hback⟩
  · right
    cases as with
    | nil => exact absurd (List.cons.inj hrest).1.symm hne
    | cons event between =>
      obtain ⟨rfl, hafter⟩ := List.cons.inj hrest
      exact ⟨between, hfront, hafter⟩

theorem oneStop (hp : Placed events before after front back stop final) :
    (events.filter (hasType "message_stop")).length = 1 := by
  rw [hp.stopAt, List.filter_append, List.filter_cons_of_pos hp.stop,
    List.filter_eq_nil_iff.2 fun event hevent => by simp [hp.beforeStop event hevent],
    List.filter_eq_nil_iff.2 fun event hevent => by simp [hp.afterStop event hevent]]
  rfl

theorem anyDelta (hp : Placed events before after front back stop final) :
    events.any (hasType "message_delta") = true := by
  rw [hp.finalAt, List.any_append, List.any_cons, hp.final, Bool.true_or, Bool.or_true]

theorem responseUsage_eq (hp : Placed events before after front back stop final)
    (h : sseEvents L raw = .ok events) (herror : events.any (hasType "error") = false) :
    responseUsage L raw (.str "anthropic") =
      if before.length < indexOf events front.length then
        .ok (.unknown, ["Missing final Anthropic message_delta/message_stop pair"])
      else finalAnthropic final := by
  have hstop : events.findIdx (hasType "message_stop") = before.length := by
    rw [hp.stopAt, findIdx_split hp.beforeStop hp.stop]
  have hdelta : events.length - 1 - events.reverse.findIdx (hasType "message_delta") =
      front.length := by
    rw [hp.finalAt, last_index hp.final hp.afterFinal]
  have hfinal : events.getD front.length .null = final := by
    rw [hp.finalAt, List.getD_eq_getElem?_getD, List.getElem?_append_right le_rfl, Nat.sub_self,
      List.getElem?_cons_zero, Option.getD_some]
  have hindex : indexOf events before.length = before.length := by
    rw [hp.stopAt]
    refine indexOf_eq fun event hevent => Bool.eq_false_iff.2 fun heq => ?_
    have htype := hasType_of_pyEq heq hp.stop
    rw [hp.beforeStop event hevent] at htype
    cases htype
  rw [responseUsage_anthropic h herror]
  simp only [hstop, hdelta, hfinal, hindex, hp.oneStop, hp.anyDelta, ne_eq, not_true_eq_false,
    Bool.true_eq_false, false_or]

/-- A stream whose last delta stands in front of the stop. -/
theorem exact_iff_of_before (hp : Placed events before after front back stop final)
    (h : sseEvents L raw = .ok events) (herror : events.any (hasType "error") = false)
    {between : List Value} (hbefore : before = front ++ final :: between)
    (hback : back = between ++ stop :: after) :
    AnthropicExact L raw events ↔ AnthropicHolds events := by
  have hcomplete : Complete events := by
    refine ⟨herror, hp.oneStop, hp.anyDelta, fun before' stop' after' hevents hstop => ?_⟩
    rw [(hp.stop_unique hevents hstop).2, List.any_eq_false]
    intro event hevent
    rw [hp.afterFinal event (hback ▸ List.mem_append_right _ (List.mem_cons_of_mem _ hevent))]
    exact Bool.false_ne_true
  have hcode : responseUsage L raw (.str "anthropic") = finalAnthropic final := by
    rw [hp.responseUsage_eq h herror, if_neg]
    have hle : indexOf events front.length ≤ front.length := Nat.min_le_left ..
    rw [hbefore, List.length_append, List.length_cons]
    omega
  have hobject := isObject_of_hasType hp.final
  have hlast : ∀ final', LastDelta events final' → final' = final := by
    rintro final' ⟨front', back', hevents, hfinal, hback⟩
    exact hp.final_unique hevents hfinal hback
  constructor
  · rintro ⟨usage, warnings, hok, -, -, -⟩
    rw [hcode] at hok
    refine ⟨fun _ final' hfinal => ?_, ?_⟩
    · rw [hlast final' hfinal]
      exact (finalAnthropic_ok hobject).1 ⟨usage, warnings, hok⟩
    · intro _ _ before' stop' between' final' back' hevents hstop hfinal hnone
      have hafter := (hp.stop_unique hevents hstop).2
      have hbefore := hcomplete.last _ _ _ hevents hstop
      rw [List.any_append, List.any_cons, hfinal, Bool.true_or, Bool.or_true] at hbefore
      cases hbefore
  · intro hholds
    obtain ⟨usage, warnings, hok⟩ := (finalAnthropic_ok hobject).2
      (hholds.readable hcomplete final ⟨front, back, hp.finalAt, hp.final, hp.afterFinal⟩)
    have husage := finalAnthropic_eq hobject hok
    refine ⟨usage, warnings, hcode.trans hok, ?_, fun _ final' hfinal => ?_,
      fun hc => absurd hcomplete hc⟩
    · rw [husage]
      exact iff_of_true rfl hcomplete
    · rw [hlast final' hfinal, husage]

/-- A stream whose last delta stands behind the stop. -/
theorem exact_iff_of_after (hp : Placed events before after front back stop final)
    (h : sseEvents L raw = .ok events) (herror : events.any (hasType "error") = false)
    {between : List Value} (hfront : front = before ++ stop :: between)
    (hafter : after = between ++ final :: back) :
    AnthropicExact L raw events ↔ AnthropicHolds events := by
  have hincomplete : ¬ Complete events := by
    intro hc
    have hnone := hc.last _ _ _ hp.stopAt hp.stop
    rw [hafter, List.any_append, List.any_cons, hp.final, Bool.true_or, Bool.or_true] at hnone
    cases hnone
  have hindex : indexOf events front.length < before.length + 1 ↔
      ∃ event ∈ before, event.pyEq final = true := by
    have hsplit : front ++ final :: back = (before ++ [stop]) ++ after := by
      rw [← hp.finalAt, hp.stopAt, List.append_assoc, List.singleton_append]
    have hlt := indexOf_lt hsplit (by rw [hfront]; simp)
    rw [← hp.finalAt, List.length_append, List.length_singleton] at hlt
    rw [hlt]
    constructor
    · rintro ⟨event, hevent, heq⟩
      rcases List.mem_append.1 hevent with hevent | hevent
      · exact ⟨event, hevent, heq⟩
      · rw [List.mem_singleton.1 hevent] at heq
        have htype : hasType "message_stop" stop = false :=
          hasType_ne (hasType_of_pyEq heq hp.final) (by decide)
        rw [hp.stop] at htype
        cases htype
    · rintro ⟨event, hevent, heq⟩
      exact ⟨event, List.mem_append_left _ hevent, heq⟩
  have hcode := hp.responseUsage_eq h herror
  by_cases hrepeat : ∃ event ∈ before, event.pyEq final = true
  · rw [if_neg (by have := hindex.2 hrepeat; omega)] at hcode
    refine iff_of_false ?_ fun hholds => ?_
    · rintro ⟨usage, warnings, hok, hstatus, -, -⟩
      rw [hcode] at hok
      refine hincomplete (hstatus.1 ?_)
      rw [finalAnthropic_eq (isObject_of_hasType hp.final) hok]
      rfl
    · obtain ⟨event, hevent, heq⟩ := hrepeat
      have hevents : events = before ++ stop :: (between ++ final :: back) := hafter ▸ hp.stopAt
      rw [hholds.unrepeated herror hp.oneStop _ _ _ _ _ hevents hp.stop hp.final hp.afterFinal event
        hevent] at heq
      cases heq
  · rw [if_pos (by have := mt hindex.1 hrepeat; omega)] at hcode
    refine iff_of_true (anthropicExact_of_unknown hcode nofun Usage.unknown_noTokens hincomplete)
      ⟨fun hc => absurd hc hincomplete, ?_⟩
    intro _ _ before' stop' between' final' back' hevents hstop hfinal hnone event hevent
    have hfinal' : final' = final := by
      have hsplit : events = (before' ++ stop' :: between') ++ final' :: back' := by
        rw [hevents, List.append_assoc, List.cons_append]
      exact hp.final_unique hsplit hfinal hnone
    rw [(hp.stop_unique hevents hstop).1] at hevent
    exact Bool.eq_false_iff.2 fun heq => hrepeat ⟨event, hevent, hfinal' ▸ heq⟩

end Placed

/-- **The usage of a Messages stream is exact unless its last `message_delta` repeats one behind the
`message_stop`**, or cannot be read. -/
theorem anthropicExact_iff (h : sseEvents L raw = .ok events) :
    AnthropicExact L raw events ↔ AnthropicHolds events := by
  cases herror : events.any (hasType "error") with
  | true =>
    have hincomplete : ¬ Complete events := fun hc => by rw [hc.errorFree] at herror; cases herror
    refine iff_of_true (anthropicExact_of_unknown (responseUsage_error h herror _) (by decide)
      Usage.failed_noTokens hincomplete) ⟨fun hc => absurd hc hincomplete, fun hfree => ?_⟩
    rw [hfree] at herror
    cases herror
  | false =>
    by_cases hshape : (events.filter (hasType "message_stop")).length = 1 ∧
        events.any (hasType "message_delta") = true
    · obtain ⟨before, stop, after, hstopAt, hstop, hbefore, hafter⟩ := exists_only hshape.1
      obtain ⟨front, final, back, hfinalAt, hfinal, hback⟩ := exists_last hshape.2
      have hp : Placed events before after front back stop final :=
        ⟨hstopAt, hstop, hbefore, hafter, hfinalAt, hfinal, hback⟩
      rcases hp.order with ⟨between, h1, h2⟩ | ⟨between, h1, h2⟩
      · exact hp.exact_iff_of_before h herror h1 h2
      · exact hp.exact_iff_of_after h herror h1 h2
    · have hincomplete : ¬ Complete events := fun hc => hshape ⟨hc.oneStop, hc.delta⟩
      have hcode := responseUsage_anthropic h herror
      rw [not_and_or, Bool.not_eq_true] at hshape
      simp only at hcode
      rw [if_pos (by tauto)] at hcode
      refine iff_of_true (anthropicExact_of_unknown hcode nofun Usage.unknown_noTokens hincomplete)
        ⟨fun hc => absurd hc hincomplete, ?_⟩
      intro _ hone before stop between final back hevents _ hfinal
      have hany : events.any (hasType "message_delta") = true := by
        rw [hevents, List.any_append, List.any_cons, List.any_append, List.any_cons, hfinal]
        simp
      rcases hshape with hshape | hshape
      · exact absurd hone hshape
      · rw [hany] at hshape
        cases hshape

end Anthropic

/-! ## Responses streams -/

/-- The events a Responses stream can end with. -/
def terminals (events : List Value) : List Value :=
  events.filter fun event => (terminalStatus event).isSome

/-- The usage is that of the only terminal event of a stream without errors, and else no token count
is known. -/
def ResponsesExact (L : Library) (raw : Bytes) (events : List Value) : Prop :=
  ∃ usage warnings, responseUsage L raw (.str "responses") = .ok (usage, warnings) ∧
    (∀ final, events.any (hasType "error") = false → terminals events = [final] →
      usage = responsesUsage final) ∧
    (¬ (events.any (hasType "error") = false ∧ (terminals events).length = 1) → usage.NoTokens)

/-- The fields of the only terminal event can be read. -/
def ResponsesHolds (events : List Value) : Prop :=
  events.any (hasType "error") = false → ∀ final, terminals events = [final] →
    ResponsesReadable final

section Responses

variable {L : Library} {raw : Bytes} {events : List Value}

theorem responseUsage_responses (h : sseEvents L raw = .ok events)
    (herror : events.any (hasType "error") = false) :
    responseUsage L raw (.str "responses") =
      match terminals events with
      | [final] => finalResponses final
      | _ => .ok (.unknown, ["Expected one final Responses event"]) := by
  rw [responseUsage, h]
  simp only [herror, Bool.false_eq_true, if_false, if_true]
  rw [← terminals]
  generalize terminals events = ends
  rcases ends with _ | ⟨final, _ | ⟨other, rest⟩⟩ <;> rfl

theorem isObject_of_terminal {event : Value} (h : (terminalStatus event).isSome = true) :
    event.isObject = true := by
  cases event <;> simp_all [terminalStatus, Value.get, Value.get?, Value.isObject]

/-- **The usage of a Responses stream is exact if its terminal event can be read.** -/
theorem responsesExact_iff (h : sseEvents L raw = .ok events) :
    ResponsesExact L raw events ↔ ResponsesHolds events := by
  cases herror : events.any (hasType "error") with
  | true =>
    refine iff_of_true ⟨_, _, responseUsage_error h herror _, fun _ hfree => ?_,
      fun _ => Usage.failed_noTokens⟩ fun hfree => ?_
    all_goals
      rw [herror] at hfree
      cases hfree
  | false =>
    have hcode := responseUsage_responses h herror
    by_cases hone : ∃ final, terminals events = [final]
    · obtain ⟨final, hfinal⟩ := hone
      have hobject : final.isObject = true := by
        have hmem : final ∈ terminals events := hfinal ▸ List.mem_singleton_self final
        exact isObject_of_terminal (List.mem_filter.1 hmem).2
      have hend : responseUsage L raw (.str "responses") = finalResponses final := by
        rw [hcode, hfinal]
      have honly : ∀ final', terminals events = [final'] → final' = final := fun final' hfinal' =>
        List.singleton_inj.1 (hfinal'.symm.trans hfinal)
      constructor
      · rintro ⟨usage, warnings, hok, -, -⟩ _ final' hfinal'
        rw [honly final' hfinal']
        exact (finalResponses_ok hobject).1 ⟨usage, warnings, hend ▸ hok⟩
      · intro hholds
        obtain ⟨usage, warnings, hok⟩ := (finalResponses_ok hobject).2 (hholds herror final hfinal)
        refine ⟨usage, warnings, hend.trans hok, fun final' _ hfinal' => ?_, fun hnone => ?_⟩
        · rw [honly final' hfinal', finalResponses_eq hobject hok]
        · exact absurd ⟨herror, by rw [hfinal]; rfl⟩ hnone
    · have hunknown : responseUsage L raw (.str "responses") =
          .ok (.unknown, ["Expected one final Responses event"]) := by
        rw [hcode]
        split
        · rename_i final hfinal
          exact absurd ⟨final, hfinal⟩ hone
        · rfl
      exact iff_of_true ⟨_, _, hunknown, fun final _ hfinal => absurd ⟨final, hfinal⟩ hone,
        fun _ => Usage.unknown_noTokens⟩ fun _ final hfinal => absurd ⟨final, hfinal⟩ hone

end Responses

/-! ## Bytes -/

def sampleDelta : Value :=
  .dict [("type", .str "message_delta"), ("usage", .dict [("output_tokens", .int 3)])]

def sampleStop : Value := .dict [("type", .str "message_stop")]

def sampleDecode (raw : Bytes) : Except String String :=
  match raw.toByteArray.utf8Decode? with
  | some chars => .ok (String.ofList chars.toList)
  | none => .error "invalid start byte"

/-- A `json.loads` that knows the texts of two events. -/
def sampleLoads (text : String) : Except String Value :=
  if text = "\x7b\"type\": \"message_stop\"\x7d" then .ok sampleStop
  else if text = "\x7b\"type\": \"message_delta\", \"usage\": \x7b\"output_tokens\": 3\x7d\x7d" then
    .ok sampleDelta
  else .error "Expecting value"

def sampleLibrary : Library :=
  { read := fun _ => none, pathText := fun _ => "", sha256 := fun _ => ""
    decodeUtf8 := sampleDecode, loads := sampleLoads, loadsBytes := fun _ => .error ""
    int := fun _ => .error "", text := fun _ => "" }

theorem sampleLibrary_utf8 : sampleLibrary.Utf8 := by
  intro raw text
  have hinj : ∀ chars : List Char, String.ofList chars = String.ofList text ↔ chars = text :=
    fun chars => ⟨fun h => by simpa using congrArg String.toList h, fun h => h ▸ rfl⟩
  constructor
  · intro h
    cases hdecode : raw.toByteArray.utf8Decode? with
    | none =>
      simp only [sampleLibrary, sampleDecode, hdecode] at h
      cases h
    | some chars =>
      simp only [sampleLibrary, sampleDecode, hdecode, Except.ok.injEq, hinj] at h
      have hencode := @ByteArray.utf8Encode_get_utf8Decode? raw.toByteArray (by rw [hdecode]; rfl)
      simp only [hdecode, Option.get_some, h] at hencode
      exact (List.toByteArray_inj.1 hencode).symm
  · rintro rfl
    simp only [sampleLibrary, sampleDecode, ThinkingStudy.utf8_decode]

def sentStop (lineEnd : LineEnd) : Sent :=
  ⟨some "message_stop".toList, true, "\x7b\"type\": \"message_stop\"\x7d".toList, sampleStop, lineEnd⟩

def sentDelta (lineEnd : LineEnd) : Sent :=
  ⟨none, false, "\x7b\"type\": \"message_delta\", \"usage\": \x7b\"output_tokens\": 3\x7d\x7d".toList,
    sampleDelta, lineEnd⟩

theorem sentStop_valid (lineEnd : LineEnd) : (sentStop lineEnd).Valid sampleLibrary :=
  ⟨by cases lineEnd <;> decide +kernel, rfl, by cases lineEnd <;> decide +kernel,
    by cases lineEnd <;> decide +kernel, fun name hname => by
      rw [← Option.some.inj (hname : some "message_stop".toList = some name)]
      decide⟩

theorem sentDelta_valid (lineEnd : LineEnd) : (sentDelta lineEnd).Valid sampleLibrary :=
  ⟨by cases lineEnd <;> decide +kernel, rfl, by cases lineEnd <;> decide +kernel,
    by cases lineEnd <;> decide +kernel, nofun⟩

end ReedCode.ParityReport
