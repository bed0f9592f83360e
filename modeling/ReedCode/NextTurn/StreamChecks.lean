import ReedCode.NextTurn.Stream

/-!
# What the stream reader of the preparation study checks

* `Valid`, `Fits` — the checks on a stream that is still open, and those on one more event.
* `Seen` — the attributes behind some events.
* `addEvent_taken`, `addEvent_of_fits` — an event is taken exactly if it fits.
* `Decoded` — the events that payloads hold; `addArrivals_sound`, `addArrivals_complete`.
-/

set_option autoImplicit false

namespace ReedCode.NextTurn.Stream

open Assembly (IdsAgree collect fragmentsAt callOf textsAt textOf inOrder)

/-! ## What the events hold -/

def choicesOf (es : List Event) : List Choice := es.flatMap Event.choices

def fragmentsOf (es : List Event) : List Fragment := (choicesOf es).flatMap Choice.toolCalls

def Fragment.key (fragment : Fragment) : Option Int := fragment.index.bind toolIndex

/-- A fragment under its key; one without a key is not put anywhere. -/
def Fragment.keyed (fragment : Fragment) : Assembly.Fragment Int :=
  ⟨fragment.key.getD 0, given fragment.id, fragment.name.getD "", fragment.arguments.getD ""⟩

def keyedOf (es : List Event) : List (Assembly.Fragment Int) := (fragmentsOf es).map Fragment.keyed

def piecesOf (es : List Event) : List (TextKey × String) :=
  (choicesOf es).flatMap fun choice => choice.texts.pieces

def finishesOf (es : List Event) : List String := (choicesOf es).filterMap Choice.finishReason

def idsOf (es : List Event) : List String := es.filterMap fun e => given e.id

def Event.visible (e : Event) : Bool := e.choices.any Choice.visible

/-- The last value that is not falsy. -/
def lastTruthy (values : List Value) : Value := ((values.filter Value.truthy).getLast?).getD .null

section Append

variable (xs ys : List Event)

theorem choicesOf_append : choicesOf (xs ++ ys) = choicesOf xs ++ choicesOf ys :=
  List.flatMap_append

theorem choicesOf_singleton (e : Event) : choicesOf [e] = e.choices := List.append_nil _

theorem fragmentsOf_append : fragmentsOf (xs ++ ys) = fragmentsOf xs ++ fragmentsOf ys := by
  rw [fragmentsOf, choicesOf_append, List.flatMap_append]
  rfl

theorem keyedOf_append : keyedOf (xs ++ ys) = keyedOf xs ++ keyedOf ys := by
  rw [keyedOf, fragmentsOf_append, List.map_append]
  rfl

theorem piecesOf_append : piecesOf (xs ++ ys) = piecesOf xs ++ piecesOf ys := by
  rw [piecesOf, choicesOf_append, List.flatMap_append]
  rfl

theorem finishesOf_append : finishesOf (xs ++ ys) = finishesOf xs ++ finishesOf ys := by
  rw [finishesOf, choicesOf_append, List.filterMap_append]
  rfl

theorem idsOf_append : idsOf (xs ++ ys) = idsOf xs ++ idsOf ys := List.filterMap_append

end Append

theorem lastTruthy_append (values : List Value) (v : Value) :
    lastTruthy (values ++ [v]) = if v.truthy then v else lastTruthy values := by
  unfold lastTruthy
  rw [List.filter_append, List.getLast?_append]
  by_cases h : v.truthy = true <;> simp [h]

/-! ## What is checked -/

structure Event.Plain (e : Event) : Prop where
  noError : e.error.truthy = false
  single : e.choices.length ≤ 1 ∧ ∀ choice ∈ e.choices, choice.index.pyEq (.int 0) = true
  texts : ∀ choice ∈ e.choices, ∀ key, choice.texts.get key = .null ∨
    ∃ s, choice.texts.get key = .str s
  noFunctionCall : ∀ choice ∈ e.choices, choice.functionCall.truthy = false
  indices : ∀ choice ∈ e.choices, ∀ fragment ∈ choice.toolCalls, fragment.key ≠ none
  types : ∀ choice ∈ e.choices, ∀ fragment ∈ choice.toolCalls,
    fragment.type = none ∨ fragment.type = some (.str "function")

structure Valid (es : List Event) : Prop where
  plain : ∀ e ∈ es, e.Plain
  oneId : ∀ a ∈ idsOf es, ∀ b ∈ idsOf es, a = b
  idsAgree : IdsAgree (keyedOf es)
  finish : (finishesOf es).length ≤ 1
  quiet : ∀ before e after, es = before ++ e :: after → finishesOf before ≠ [] → e.visible = false

/-- What is checked of one more event. -/
structure Fits (es : List Event) (e : Event) : Prop where
  plain : e.Plain
  oneId : ∀ a ∈ idsOf es, ∀ b, given e.id = some b → a = b
  idsAgree : IdsAgree (keyedOf es ++ keyedOf [e])
  finish : finishesOf es ≠ [] → finishesOf [e] = []
  quiet : finishesOf es ≠ [] → e.visible = false

theorem finishes_plain {e : Event} (h : e.Plain) : (finishesOf [e]).length ≤ 1 := by
  rw [finishesOf, choicesOf_singleton]
  exact (List.length_filterMap_le _ _).trans h.single.1

theorem valid_append {es : List Event} {e : Event} :
    Valid (es ++ [e]) ↔ Valid es ∧ Fits es e := by
  have hids : ∀ b, b ∈ idsOf [e] ↔ given e.id = some b := fun b => by simp [idsOf]
  constructor
  · intro h
    obtain ⟨hquiet, hlast⟩ := Assembly.forall_split_append_singleton.1 h.quiet
    have hfinish := h.finish
    have hagree := h.idsAgree
    have hone := h.oneId
    rw [finishesOf_append, List.length_append] at hfinish
    rw [keyedOf_append] at hagree
    rw [idsOf_append] at hone
    refine ⟨⟨fun e' he' => h.plain e' (List.mem_append_left _ he'), fun a ha b hb =>
      hone a (List.mem_append_left _ ha) b (List.mem_append_left _ hb), hagree.of_append, by omega,
      hquiet⟩, ⟨h.plain e (by simp), fun a ha b hb => hone a (List.mem_append_left _ ha) b
        (List.mem_append_right _ ((hids b).2 hb)), hagree, fun hne => ?_, hlast⟩⟩
    have hpos := List.length_pos_of_ne_nil hne
    exact List.eq_nil_of_length_eq_zero (by omega)
  · rintro ⟨h, he⟩
    refine ⟨?_, ?_, ?_, ?_, Assembly.forall_split_append_singleton.2 ⟨h.quiet, he.quiet⟩⟩
    · intro e' he'
      rcases List.mem_append.1 he' with he' | he'
      · exact h.plain e' he'
      · rw [List.mem_singleton.1 he']
        exact he.plain
    · intro a ha b hb
      rw [idsOf_append, List.mem_append, hids] at ha hb
      rcases ha with ha | ha <;> rcases hb with hb | hb
      · exact h.oneId a ha b hb
      · exact he.oneId a ha b hb
      · exact (he.oneId b hb a ha).symm
      · exact Option.some.inj (ha.symm.trans hb)
    · rw [keyedOf_append]
      exact he.idsAgree
    · rw [finishesOf_append, List.length_append]
      by_cases hne : finishesOf es = []
      · rw [hne]
        exact (Nat.zero_add _).trans_le (finishes_plain he.plain)
      · rw [he.finish hne]
        exact h.finish

theorem Valid.of_append {xs : List Event} : ∀ {ys : List Event}, Valid (xs ++ ys) → Valid xs
  | [], h => by rwa [List.append_nil] at h
  | y :: ys, h => by
    rw [List.append_cons] at h
    exact (valid_append.1 h.of_append).1

/-! ## One choice -/

theorem addText_eq_ok {texts : DeltaTexts} {message message' : FinMap TextKey String}
    {key : TextKey} : addText texts message key = .ok message' ↔
      (texts.get key = .null ∨ ∃ s, texts.get key = .str s) ∧
      message' = (((texts.text? key).map (key, ·)).toList).foldl Assembly.addText message := by
  unfold addText DeltaTexts.text?
  cases texts.get key with
  | null => exact Except.ok_eq_iff (Or.inl rfl)
  | str s => exact Except.ok_eq_iff (Or.inr ⟨s, rfl⟩)
  | _ => exact iff_of_false (fun he => (by cases he)) fun he => by simp at he

theorem addTexts_eq_ok {texts : DeltaTexts} : ∀ {keys : List TextKey}
    {message message' : FinMap TextKey String},
    keys.foldlM (addText texts) message = .ok message' ↔
      (∀ key ∈ keys, texts.get key = .null ∨ ∃ s, texts.get key = .str s) ∧
      message' = (keys.filterMap fun key => (texts.text? key).map (key, ·)).foldl Assembly.addText
        message
  | [], message, message' => Except.ok_eq_iff fun _ h => (by cases h)
  | key :: keys, message, message' => by
    have hsplit : ((key :: keys).filterMap fun key => (texts.text? key).map (key, ·)) =
        ((texts.text? key).map (key, ·)).toList ++
          (keys.filterMap fun key => (texts.text? key).map (key, ·)) := by
      cases htext : texts.text? key with
      | none => exact List.filterMap_cons_none (by rw [htext]; rfl)
      | some text => exact List.filterMap_cons_some (by rw [htext]; rfl)
    rw [List.foldlM_cons, Except.bind_eq_ok_iff, hsplit, List.foldl_append, List.forall_mem_cons]
    constructor
    · rintro ⟨message₁, h₁, h₂⟩
      obtain ⟨hkey, rfl⟩ := addText_eq_ok.1 h₁
      obtain ⟨hkeys, hresult⟩ := addTexts_eq_ok.1 h₂
      exact ⟨⟨hkey, hkeys⟩, hresult⟩
    · rintro ⟨⟨hkey, hkeys⟩, hresult⟩
      exact ⟨_, addText_eq_ok.2 ⟨hkey, rfl⟩, addTexts_eq_ok.2 ⟨hkeys, hresult⟩⟩

theorem addFragment_eq_ok {calls calls' : FinMap Int Assembly.Call} {fragment : Fragment} :
    addFragment calls fragment = .ok calls' ↔ fragment.key ≠ none ∧
      (fragment.type = none ∨ fragment.type = some (.str "function")) ∧
      collect calls fragment.keyed = some calls' := by
  have htype : fragment.type.getD (.str "function") = .str "function" ↔
      fragment.type = none ∨ fragment.type = some (.str "function") := by
    cases fragment.type <;> simp
  unfold addFragment Fragment.keyed Fragment.key
  cases fragment.index with
  | none => exact iff_of_false (fun he => (by cases he)) fun he => he.1 rfl
  | some index =>
    rw [Option.bind_some]
    cases hkey : toolIndex index with
    | none => exact iff_of_false (fun he => by simp [hkey] at he) fun he => he.1 rfl
    | some key =>
      dsimp only
      rw [hkey, Option.getD_some]
      dsimp only
      rw [← htype]
      split
      · rename_i hne
        exact iff_of_false (fun he => (by cases he)) fun he => hne he.2.1
      · rename_i heq
        rw [Classical.not_not] at heq
        cases collect calls ⟨key, given fragment.id, fragment.name.getD "",
          fragment.arguments.getD ""⟩ with
        | none => simp
        | some calls₁ => simp [heq]

theorem addFragments_eq_ok : ∀ {fragments : List Fragment}
    {calls calls' : FinMap Int Assembly.Call}, fragments.foldlM addFragment calls = .ok calls' ↔
      (∀ fragment ∈ fragments, fragment.key ≠ none) ∧
      (∀ fragment ∈ fragments, fragment.type = none ∨ fragment.type = some (.str "function")) ∧
        (fragments.map Fragment.keyed).foldlM collect calls = some calls'
  | [], calls, calls' => by simp [pure, Except.pure]
  | fragment :: fragments, calls, calls' => by
    rw [List.foldlM_cons, Except.bind_eq_ok_iff, List.map_cons, List.foldlM_cons,
      List.forall_mem_cons, List.forall_mem_cons, Option.bind_eq_bind, Option.bind_eq_some_iff]
    constructor
    · rintro ⟨calls₁, h₁, h₂⟩
      obtain ⟨hkey, htype, hcall⟩ := addFragment_eq_ok.1 h₁
      obtain ⟨hkeys, htypes, hcalls⟩ := addFragments_eq_ok.1 h₂
      exact ⟨⟨hkey, hkeys⟩, ⟨htype, htypes⟩, calls₁, hcall, hcalls⟩
    · rintro ⟨⟨hkey, hkeys⟩, ⟨htype, htypes⟩, calls₁, hcall, hcalls⟩
      exact ⟨calls₁, addFragment_eq_ok.2 ⟨hkey, htype, hcall⟩,
        addFragments_eq_ok.2 ⟨hkeys, htypes, hcalls⟩⟩

/-- What a choice does to the attributes. -/
def State.afterChoice (st : State) (received : Nat) (choice : Choice)
    (calls : FinMap Int Assembly.Call) : State :=
  { st with
    texts := choice.texts.pieces.foldl Assembly.addText st.texts
    calls
    firstSemantic :=
      if choice.visible then orReceived st.firstSemantic received else st.firstSemantic
    finish := choice.finishReason.or st.finish }

theorem addChoice_eq_ok {received : Nat} {st st' : State} {choice : Choice} :
    addChoice received st choice = .ok st' ↔
      ¬ (st.finish.isSome ∧ choice.visible) ∧
      (∀ key, choice.texts.get key = .null ∨ ∃ s, choice.texts.get key = .str s) ∧
      choice.functionCall.truthy = false ∧
      (∀ fragment ∈ choice.toolCalls, fragment.key ≠ none) ∧
      (∀ fragment ∈ choice.toolCalls,
        fragment.type = none ∨ fragment.type = some (.str "function")) ∧
      ¬ (choice.finishReason.isSome ∧ st.finish.isSome) ∧
      ∃ calls, (choice.toolCalls.map Fragment.keyed).foldlM collect st.calls = some calls ∧
        st' = st.afterChoice received choice calls := by
  unfold addChoice
  simp only [Except.bind_eq_ok_iff, Except.failIf_eq_ok, exists_const, pure, Except.pure,
    Except.ok.injEq]
  constructor
  · rintro ⟨hquiet, texts, htexts, hlegacy, calls, hcalls, hfinish, rfl⟩
    obtain ⟨hstrings, rfl⟩ := addTexts_eq_ok.1 htexts
    obtain ⟨hkeys, htypes, hcollect⟩ := addFragments_eq_ok.1 hcalls
    exact ⟨hquiet, fun key => hstrings key (TextKey.mem_all key), Bool.eq_false_iff.2 hlegacy,
      hkeys, htypes, hfinish, calls, hcollect, rfl⟩
  · rintro ⟨hquiet, hstrings, hlegacy, hkeys, htypes, hfinish, calls, hcollect, rfl⟩
    exact ⟨hquiet, _, addTexts_eq_ok.2 ⟨fun key _ => hstrings key, rfl⟩,
      Bool.eq_false_iff.1 hlegacy, calls, addFragments_eq_ok.2 ⟨hkeys, htypes, hcollect⟩, hfinish,
      rfl⟩

/-! ## One event -/

/-- Receipt times put together with `or`. -/
def firstReceived (received : List Nat) : Option Nat := received.foldl orReceived none

/-- The attributes behind some events. -/
structure Seen (st : State) (ts : List (Nat × Event)) : Prop where
  texts : st.texts = (piecesOf (ts.map Prod.snd)).foldl Assembly.addText .empty
  calls : (keyedOf (ts.map Prod.snd)).foldlM collect .empty = some st.calls
  finish : st.finish = (finishesOf (ts.map Prod.snd)).head?
  usage : st.usage = lastTruthy (ts.map fun t => t.2.usage)
  completionId : st.completionId = (idsOf (ts.map Prod.snd)).getLast?
  engineData : st.engineData = lastTruthy (ts.map fun t => t.2.engineData)
  outputIds : st.outputIds = ts.flatMap fun t => t.2.completionTokenIds
  firstGenerated : st.firstGenerated =
    firstReceived ((ts.filter fun t => t.2.completionTokenIds ≠ []).map Prod.fst)
  firstSemantic : st.firstSemantic =
    firstReceived ((ts.filter fun t => t.2.visible).map Prod.fst)
  done : st.done = false

theorem seen_new : Seen .new [] := ⟨rfl, rfl, rfl, rfl, rfl, rfl, rfl, rfl, rfl, rfl⟩

theorem addEvent_eq_ok {received : Nat} {st st' : State} {e : Event} :
    addEvent received st e = .ok st' ↔ e.error.truthy = false ∧
      (∀ a, st.completionId = some a → ∀ b, given e.id = some b → a = b) ∧
      (e.choices.length ≤ 1 ∧ ∀ choice ∈ e.choices, choice.index.pyEq (.int 0) = true) ∧
      e.choices.foldlM (addChoice received) (st.opened received e) = .ok st' := by
  have hid : ¬ ((given e.id).isSome ∧ st.completionId ≠ none ∧ st.completionId ≠ given e.id) ↔
      ∀ a, st.completionId = some a → ∀ b, given e.id = some b → a = b := by
    cases given e.id <;> cases st.completionId <;> simp
  have hsingle : ¬ (1 < e.choices.length ∨
      (e.choices.any fun choice => !choice.index.pyEq (.int 0)) = true) ↔
      e.choices.length ≤ 1 ∧ ∀ choice ∈ e.choices, choice.index.pyEq (.int 0) = true := by
    rw [not_or, Nat.not_lt, List.any_eq_true]
    simp
  unfold addEvent
  simp only [Except.bind_eq_ok_iff, Except.failIf_eq_ok, exists_const, hid, hsingle,
    Bool.not_eq_true]

/-- An event holds one choice or none. -/
theorem choices_cases {e : Event} (h : e.choices.length ≤ 1) :
    e.choices = [] ∨ ∃ choice, e.choices = [choice] := by
  cases hchoices : e.choices with
  | nil => exact Or.inl rfl
  | cons choice rest =>
    rw [hchoices, List.length_cons] at h
    have hrest : rest = [] := List.eq_nil_of_length_eq_zero (by omega)
    exact Or.inr ⟨choice, by rw [hrest]⟩

section Opened

variable {st : State} {ts : List (Nat × Event)} {received : Nat} {e : Event}

theorem firstReceived_append (rs : List Nat) (received : Nat) :
    firstReceived (rs ++ [received]) = orReceived (firstReceived rs) received := by
  rw [firstReceived, List.foldl_append]
  rfl

/-- What an event changes whatever its choices are. -/
theorem opened_spec (hs : Seen st ts) :
    (st.opened received e).usage = lastTruthy ((ts ++ [(received, e)]).map fun t => t.2.usage) ∧
    (st.opened received e).completionId =
      (idsOf ((ts ++ [(received, e)]).map Prod.snd)).getLast? ∧
    (st.opened received e).engineData =
      lastTruthy ((ts ++ [(received, e)]).map fun t => t.2.engineData) ∧
    (st.opened received e).outputIds =
      (ts ++ [(received, e)]).flatMap (fun t => t.2.completionTokenIds) ∧
    (st.opened received e).firstGenerated = firstReceived
      (((ts ++ [(received, e)]).filter fun t => t.2.completionTokenIds ≠ []).map Prod.fst) := by
  refine ⟨?_, ?_, ?_, ?_, ?_⟩
  · rw [List.map_append, List.map_singleton, lastTruthy_append, ← hs.usage]
    rfl
  · rw [List.map_append, idsOf_append, List.getLast?_append, ← hs.completionId]
    cases hid : given e.id <;> simp [State.opened, idsOf, hid]
  · rw [List.map_append, List.map_singleton, lastTruthy_append, ← hs.engineData]
    rfl
  · rw [List.flatMap_append, ← hs.outputIds, List.flatMap_singleton]
    rfl
  · rw [List.filter_append, List.map_append]
    by_cases hids : e.completionTokenIds = []
    · rw [List.filter_cons_of_neg (by simp [hids]), List.filter_nil, List.map_nil, List.append_nil,
        ← hs.firstGenerated]
      exact if_neg (by simp [hids])
    · rw [List.filter_cons_of_pos (by simp [hids]), List.filter_nil, List.map_singleton,
        firstReceived_append, ← hs.firstGenerated]
      exact if_pos hids

theorem seen_opened (hs : Seen st ts) (hempty : e.choices = []) :
    Seen (st.opened received e) (ts ++ [(received, e)]) := by
  have hchoices : choicesOf ((ts ++ [(received, e)]).map Prod.snd) =
      choicesOf (ts.map Prod.snd) := by
    rw [List.map_append, choicesOf_append, List.map_singleton, choicesOf_singleton, hempty,
      List.append_nil]
  have hvisible : e.visible = false := by rw [Event.visible, hempty]; rfl
  obtain ⟨husage, hid, hengine, hids, hgenerated⟩ := @opened_spec st ts received e hs
  refine ⟨?_, ?_, ?_, husage, hid, hengine, hids, hgenerated, ?_, hs.done⟩
  · rw [piecesOf, hchoices]
    exact hs.texts
  · rw [keyedOf, fragmentsOf, hchoices]
    exact hs.calls
  · rw [finishesOf, hchoices]
    exact hs.finish
  · rw [List.filter_append, List.filter_cons_of_neg (by simp [hvisible]), List.filter_nil,
      List.append_nil]
    exact hs.firstSemantic

theorem seen_choice {choice : Choice} {calls : FinMap Int Assembly.Call} (hs : Seen st ts)
    (hone : e.choices = [choice])
    (hcalls : (choice.toolCalls.map Fragment.keyed).foldlM collect st.calls = some calls)
    (hfinish : ¬ (choice.finishReason.isSome ∧ st.finish.isSome)) :
    Seen ((st.opened received e).afterChoice received choice calls) (ts ++ [(received, e)]) := by
  have hchoices : choicesOf [e] = [choice] := (choicesOf_singleton e).trans hone
  have hvisible : e.visible = choice.visible := by
    rw [Event.visible, hone, List.any_cons, List.any_nil, Bool.or_false]
  obtain ⟨husage, hid, hengine, hids, hgenerated⟩ := @opened_spec st ts received e hs
  refine ⟨?_, ?_, ?_, husage, hid, hengine, hids, hgenerated, ?_, hs.done⟩
  · have hpieces : piecesOf [e] = choice.texts.pieces := by
      rw [piecesOf, hchoices, List.flatMap_singleton]
    rw [List.map_append, List.map_singleton, piecesOf_append, List.foldl_append, hpieces]
    exact congrArg (choice.texts.pieces.foldl Assembly.addText ·) hs.texts
  · have hfragments : keyedOf [e] = choice.toolCalls.map Fragment.keyed := by
      rw [keyedOf, fragmentsOf, hchoices, List.flatMap_singleton]
    rw [List.map_append, List.map_singleton, keyedOf_append, List.foldlM_append, hs.calls,
      hfragments]
    exact hcalls
  · rw [List.map_append, List.map_singleton, finishesOf_append, List.head?_append, ← hs.finish,
      finishesOf, hchoices]
    cases hf : choice.finishReason with
    | none =>
      rw [List.filterMap_cons_none hf, List.filterMap_nil, List.head?_nil, Option.or_none]
      exact congrArg (Option.or · st.finish) hf
    | some finish =>
      rw [hf, Option.isSome_some] at hfinish
      have hnone : st.finish = none := Option.not_isSome_iff_eq_none.1 fun h => hfinish ⟨rfl, h⟩
      rw [List.filterMap_cons_some hf, List.head?_cons, hnone, Option.none_or]
      exact congrArg (Option.or · st.finish) hf
  · rw [List.filter_append, List.map_append]
    by_cases hshown : choice.visible = true
    · rw [List.filter_cons_of_pos (by rw [hvisible, hshown]), List.filter_nil,
        List.map_singleton, firstReceived_append, ← hs.firstSemantic]
      exact if_pos hshown
    · rw [List.filter_cons_of_neg (by rw [hvisible]; exact hshown), List.filter_nil, List.map_nil,
        List.append_nil, ← hs.firstSemantic]
      exact if_neg hshown

end Opened

/-- What an event must meet, as the attributes have it. -/
theorem fits_iff {st : State} {ts : List (Nat × Event)} {e : Event}
    (hv : Valid (ts.map Prod.snd)) (hs : Seen st ts) :
    Fits (ts.map Prod.snd) e ↔
      e.Plain ∧ (∀ a, st.completionId = some a → ∀ b, given e.id = some b → a = b) ∧
      (st.finish.isSome → finishesOf [e] = [] ∧ e.visible = false) ∧
      ∃ calls, (keyedOf [e]).foldlM collect st.calls = some calls := by
  have hid : (∀ a, st.completionId = some a → ∀ b, given e.id = some b → a = b) ↔
      ∀ a ∈ idsOf (ts.map Prod.snd), ∀ b, given e.id = some b → a = b := by
    rw [hs.completionId]
    constructor
    · intro h a ha b hb
      cases hlast : (idsOf (ts.map Prod.snd)).getLast? with
      | none => exact absurd (List.getLast?_eq_none_iff.1 hlast) (List.ne_nil_of_mem ha)
      | some last =>
        exact (hv.oneId a ha last (List.mem_of_getLast? hlast)).trans (h last hlast b hb)
    · exact fun h a ha => h a (List.mem_of_getLast? ha)
  have hfinish : st.finish.isSome = true ↔ finishesOf (ts.map Prod.snd) ≠ [] := by
    rw [hs.finish, List.isSome_head?]
  have hcollect : (∃ calls, (keyedOf [e]).foldlM collect st.calls = some calls) ↔
      IdsAgree (keyedOf (ts.map Prod.snd) ++ keyedOf [e]) := by
    rw [← Assembly.collectAll_eq_some.1, List.foldlM_append, hs.calls, Option.isSome_iff_exists]
    rfl
  rw [hid, hfinish, hcollect]
  constructor
  · intro h
    exact ⟨h.plain, h.oneId, fun hne => ⟨h.finish hne, h.quiet hne⟩, h.idsAgree⟩
  · rintro ⟨hplain, hone, hlate, hagree⟩
    exact ⟨hplain, hone, hagree, fun hne => (hlate hne).1, fun hne => (hlate hne).2⟩

/-- A taken event fits, and the attributes stay those of the events. -/
theorem addEvent_taken {received : Nat} {st st' : State} {ts : List (Nat × Event)} {e : Event}
    (hv : Valid (ts.map Prod.snd)) (hs : Seen st ts) (h : addEvent received st e = .ok st') :
    Fits (ts.map Prod.snd) e ∧ Seen st' (ts ++ [(received, e)]) := by
  obtain ⟨herror, hid, hsingle, hchoices⟩ := addEvent_eq_ok.1 h
  rcases choices_cases hsingle.1 with hempty | ⟨choice, hone⟩
  · rw [hempty] at hchoices
    cases hchoices
    refine ⟨(fits_iff hv hs).2 ⟨⟨herror, hsingle, ?_, ?_, ?_, ?_⟩, hid, fun _ => ?_, st.calls, ?_⟩,
      seen_opened hs hempty⟩
    all_goals try (rw [hempty]; exact fun _ h => (by cases h))
    · rw [finishesOf, choicesOf_singleton, Event.visible, hempty]
      exact ⟨rfl, rfl⟩
    · rw [keyedOf, fragmentsOf, choicesOf_singleton, hempty]
      rfl
  · rw [hone, List.foldlM_cons, Except.bind_eq_ok_iff] at hchoices
    obtain ⟨st₁, hchoice, hrest⟩ := hchoices
    cases hrest
    obtain ⟨hquiet, hstrings, hlegacy, hkeys, htypes, hfinish, calls, hcalls, rfl⟩ :=
      addChoice_eq_ok.1 hchoice
    have hmem : ∀ {p : Choice → Prop}, p choice → ∀ choice' ∈ e.choices, p choice' := by
      rw [hone]
      exact List.forall_mem_singleton.2
    refine ⟨(fits_iff hv hs).2 ⟨⟨herror, hsingle, hmem hstrings, hmem hlegacy, hmem hkeys,
      hmem htypes⟩, hid, fun hlate => ?_, calls, ?_⟩, seen_choice hs hone hcalls hfinish⟩
    · rw [finishesOf, choicesOf_singleton, Event.visible, hone]
      constructor
      · rw [List.filterMap_cons_none, List.filterMap_nil]
        exact Option.not_isSome_iff_eq_none.1 fun h => hfinish ⟨h, hlate⟩
      · rw [List.any_cons, List.any_nil, Bool.or_false]
        exact Bool.eq_false_iff.2 fun h => hquiet ⟨hlate, h⟩
    · rw [keyedOf, fragmentsOf, choicesOf_singleton, hone, List.flatMap_singleton]
      exact hcalls

theorem addEvent_of_fits (received : Nat) {st : State} {ts : List (Nat × Event)} {e : Event}
    (hv : Valid (ts.map Prod.snd)) (hs : Seen st ts) (h : Fits (ts.map Prod.snd) e) :
    ∃ st', addEvent received st e = .ok st' := by
  obtain ⟨hplain, hid, hlate, calls, hcalls⟩ := (fits_iff hv hs).1 h
  have hopened : ∀ st', e.choices.foldlM (addChoice received) (st.opened received e) = .ok st' →
      ∃ st', addEvent received st e = .ok st' := fun st' hchoices =>
    ⟨st', addEvent_eq_ok.2 ⟨hplain.noError, hid, hplain.single, hchoices⟩⟩
  rcases choices_cases hplain.single.1 with hempty | ⟨choice, hone⟩
  · exact hopened (st.opened received e) (by rw [hempty]; rfl)
  · have hmem : choice ∈ e.choices := by rw [hone]; simp
    have hfinishes : finishesOf [e] = [choice].filterMap Choice.finishReason := by
      rw [finishesOf, choicesOf_singleton, hone]
    have hvisible : e.visible = choice.visible := by
      rw [Event.visible, hone, List.any_cons, List.any_nil, Bool.or_false]
    rw [keyedOf, fragmentsOf, choicesOf_singleton, hone, List.flatMap_singleton] at hcalls
    refine hopened ((st.opened received e).afterChoice received choice calls) ?_
    rw [hone, List.foldlM_cons]
    refine Except.bind_eq_ok_iff.2 ⟨_, addChoice_eq_ok.2
      ⟨fun hq => ?_, hplain.texts choice hmem, hplain.noFunctionCall choice hmem,
        hplain.indices choice hmem, hplain.types choice hmem, fun hf => ?_, calls, hcalls, rfl⟩, rfl⟩
    · have hquiet := (hlate hq.1).2
      rw [hvisible, hq.2] at hquiet
      cases hquiet
    · obtain ⟨finish, hfinish⟩ := Option.isSome_iff_exists.1 hf.1
      have hnil := (hlate hf.2).1
      rw [hfinishes, List.filterMap_cons_some hfinish] at hnil
      cases hnil

/-! ## All payloads -/

/-- The payloads are objects, and these are the events that they hold. -/
def Objects (loads : String → Loaded) : List (Nat × String) → List (Nat × Event) → Prop :=
  List.Forall₂ fun arrival t =>
    arrival.2 ≠ doneMarker ∧ arrival.1 = t.1 ∧ loads arrival.2 = .object t.2

/-- One last payload is the marker of the end, and all others are objects. -/
def Decoded (loads : String → Loaded) (arrivals : List (Nat × String))
    (ts : List (Nat × Event)) : Prop :=
  ∃ before received, arrivals = before ++ [(received, doneMarker)] ∧ Objects loads before ts

theorem objects_unique {loads : String → Loaded} {arrivals : List (Nat × String)}
    {ts ts' : List (Nat × Event)} (h : Objects loads arrivals ts)
    (h' : Objects loads arrivals ts') : ts = ts' := by
  induction h generalizing ts' with
  | nil =>
    cases h'
    rfl
  | cons hone _ ih =>
    cases h' with
    | cons hone' hrest' =>
      have hload := hone.2.2.symm.trans hone'.2.2
      rw [Loaded.object.injEq] at hload
      rw [ih hrest', Prod.ext (hone.2.1.symm.trans hone'.2.1) hload]

theorem Objects.not_marker {loads : String → Loaded} {arrivals : List (Nat × String)}
    {ts : List (Nat × Event)} (h : Objects loads arrivals ts) :
    ∀ arrival ∈ arrivals, arrival.2 ≠ doneMarker := by
  induction h with
  | nil => exact fun _ h => (by cases h)
  | cons hone _ ih => exact List.forall_mem_cons.2 ⟨hone.1, ih⟩

theorem decoded_unique {loads : String → Loaded} {arrivals : List (Nat × String)}
    {ts ts' : List (Nat × Event)} (h : Decoded loads arrivals ts) (h' : Decoded loads arrivals ts') :
    ts = ts' := by
  obtain ⟨before, received, rfl, hobjects⟩ := h
  obtain ⟨before', received', he, hobjects'⟩ := h'
  obtain ⟨rfl, -⟩ := List.append_inj' he rfl
  exact objects_unique hobjects hobjects'

/-- Payloads before the marker. -/
theorem addAll_spec {loads : String → Loaded} : ∀ {arrivals : List (Nat × String)} {st : State}
    {ts : List (Nat × Event)}, (∀ arrival ∈ arrivals, arrival.2 ≠ doneMarker) →
    Valid (ts.map Prod.snd) → Seen st ts →
      (∀ st', arrivals.foldlM (add loads) st = .ok st' → ∃ ts', Objects loads arrivals ts' ∧
        Valid ((ts ++ ts').map Prod.snd) ∧ Seen st' (ts ++ ts')) ∧
      (∀ ts', Objects loads arrivals ts' → Valid ((ts ++ ts').map Prod.snd) →
        ∃ st', arrivals.foldlM (add loads) st = .ok st')
  | [], st, ts, _, hv, hs => by
    refine ⟨fun st' h => ⟨[], .nil, ?_⟩, fun _ _ _ => ⟨st, rfl⟩⟩
    cases h
    rw [List.append_nil]
    exact ⟨hv, hs⟩
  | (received, payload) :: arrivals, st, ts, hmarker, hv, hs => by
    obtain ⟨hpayload, hrest⟩ := List.forall_mem_cons.1 hmarker
    have hadd : ∀ e, loads payload = .object e →
        add loads st (received, payload) = addEvent received st e := by
      intro e he
      rw [add, if_neg (by simp [hs.done]), if_neg hpayload, he]
    constructor
    · intro st' h
      rw [List.foldlM_cons] at h
      obtain ⟨st₁, h₁, h⟩ := Except.bind_eq_ok_iff.1 h
      cases hload : loads payload with
      | object e =>
        obtain ⟨hfits, hs₁⟩ := addEvent_taken hv hs ((hadd e hload).symm.trans h₁)
        have hv₁ : Valid ((ts ++ [(received, e)]).map Prod.snd) := by
          rw [List.map_append]
          exact valid_append.2 ⟨hv, hfits⟩
        obtain ⟨ts', hobjects, hvalid, hseen⟩ := (addAll_spec hrest hv₁ hs₁).1 st' h
        rw [List.append_assoc] at hvalid hseen
        exact ⟨(received, e) :: ts', .cons ⟨hpayload, rfl, hload⟩ hobjects, hvalid, hseen⟩
      | invalid =>
        rw [add, if_neg (by simp [hs.done]), if_neg hpayload, hload] at h₁
        cases h₁
      | notObject =>
        rw [add, if_neg (by simp [hs.done]), if_neg hpayload, hload] at h₁
        cases h₁
    · rintro (_ | ⟨⟨received', e⟩, ts'⟩) hobjects hvalid
      · cases hobjects
      · obtain ⟨⟨-, hreceived, hload⟩, hobjects'⟩ := List.forall₂_cons.1 hobjects
        dsimp only at hreceived hload
        subst hreceived
        rw [List.append_cons, List.map_append] at hvalid
        have hone := hvalid.of_append
        rw [List.map_append] at hone
        obtain ⟨st₁, h₁⟩ := addEvent_of_fits received hv hs (valid_append.1 hone).2
        have hs₁ := (addEvent_taken hv hs h₁).2
        rw [← List.map_append] at hone
        obtain ⟨-, hcomplete⟩ := @addAll_spec loads arrivals st₁ _ hrest hone hs₁
        obtain ⟨st', h'⟩ := hcomplete ts' hobjects' (by rwa [List.map_append])
        rw [List.foldlM_cons]
        exact ⟨st', Except.bind_eq_ok_iff.2 ⟨st₁, (hadd e hload).trans h₁, h'⟩⟩

theorem split_at_marker : ∀ arrivals : List (Nat × String),
    (∀ arrival ∈ arrivals, arrival.2 ≠ doneMarker) ∨ ∃ before received after,
      arrivals = before ++ (received, doneMarker) :: after ∧
        ∀ arrival ∈ before, arrival.2 ≠ doneMarker
  | [] => Or.inl fun _ h => (by cases h)
  | (received, payload) :: arrivals => by
    by_cases hpayload : payload = doneMarker
    · subst hpayload
      exact Or.inr ⟨[], received, arrivals, rfl, fun _ h => (by cases h)⟩
    · rcases split_at_marker arrivals with hnone | ⟨before, received', after, rfl, hbefore⟩
      · exact Or.inl (List.forall_mem_cons.2 ⟨hpayload, hnone⟩)
      · exact Or.inr ⟨(received, payload) :: before, received', after, rfl,
          List.forall_mem_cons.2 ⟨hpayload, hbefore⟩⟩

theorem valid_nil : Valid (([] : List (Nat × Event)).map Prod.snd) := by
  refine ⟨?_, ?_, ?_, Nat.zero_le 1, ?_⟩
  · exact fun _ h => (by cases h)
  · exact fun _ h => (by cases h)
  · exact fun _ h => (by cases h)
  · intro before e after he
    exact absurd he (by simp)

/-- Payloads that close the stream decode to a valid one. -/
theorem addArrivals_sound {loads : String → Loaded} {arrivals : List (Nat × String)} {st : State}
    (hdone : st.done = true) :
    arrivals.foldlM (add loads) .new = .ok st → ∃ ts, Decoded loads arrivals ts ∧
      Valid (ts.map Prod.snd) ∧ Seen { st with done := false } ts := by
  intro h
  rcases split_at_marker arrivals with hnone | ⟨before, received, after, rfl, hbefore⟩
  · obtain ⟨ts, -, -, hs⟩ := (addAll_spec hnone valid_nil seen_new).1 st h
    exact absurd (hs.done.symm.trans hdone) (by simp)
  · rw [List.foldlM_append] at h
    obtain ⟨st₁, h₁, h⟩ := Except.bind_eq_ok_iff.1 h
    obtain ⟨ts, hobjects, hv, hs⟩ := (addAll_spec hbefore valid_nil seen_new).1 st₁ h₁
    have hmarker : add loads st₁ (received, doneMarker) = .ok { st₁ with done := true } := by
      rw [add, if_neg (by simp [hs.done]), if_pos rfl]
    rw [List.foldlM_cons, hmarker] at h
    cases after with
    | nil =>
      cases h
      refine ⟨ts, ⟨before, received, rfl, hobjects⟩, hv, ?_⟩
      obtain ⟨texts, calls, finish, usage, completionId, engineData, outputIds, firstGenerated,
        firstSemantic, done⟩ := st₁
      obtain rfl : done = false := hs.done
      exact hs
    | cons arrival after =>
      change Except.bind _ _ = _ at h
      cases h

theorem addArrivals_complete {loads : String → Loaded} {arrivals : List (Nat × String)}
    {ts : List (Nat × Event)} (hdecoded : Decoded loads arrivals ts) (hv : Valid (ts.map Prod.snd)) :
    ∃ st, arrivals.foldlM (add loads) .new = .ok st ∧ st.done = true := by
  obtain ⟨before, received, rfl, hobjects⟩ := hdecoded
  obtain ⟨hsound, hcomplete⟩ :=
    @addAll_spec loads before .new [] hobjects.not_marker valid_nil seen_new
  obtain ⟨st, hst⟩ := hcomplete ts hobjects hv
  obtain ⟨_, -, -, hs⟩ := hsound st hst
  refine ⟨{ st with done := true }, ?_, rfl⟩
  rw [List.foldlM_append, hst]
  change (add loads st (received, doneMarker)).bind _ = _
  rw [add, if_neg (by simp [hs.done]), if_pos rfl]
  rfl

end ReedCode.NextTurn.Stream
