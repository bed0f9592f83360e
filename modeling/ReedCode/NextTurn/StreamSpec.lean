import ReedCode.NextTurn.StreamChecks

/-!
# What the stream reader of the preparation study accepts

* `Grammar` — the accepted streams; `grammar_iff` reads it as what the loop and the end check.
* `Streamed` — the message of a stream.
* `assemble_spec` — **the accepted streams and their messages.**
-/

set_option autoImplicit false

namespace ReedCode.NextTurn.Stream

open Assembly (IdsAgree collect fragmentsAt callOf textsAt textOf inOrder)

/-! ## The accepted streams -/

/-- What the events of an accepted stream meet. -/
structure Grammar (es : List Event) : Prop where
  noError : ∀ e ∈ es, e.error.truthy = false
  oneId : ∀ a ∈ idsOf es, ∀ b ∈ idsOf es, a = b
  single : ∀ e ∈ es, e.choices.length ≤ 1 ∧ ∀ choice ∈ e.choices, choice.index.pyEq (.int 0) = true
  oneFinish : ∃ finish, finishesOf es = [finish]
  nothingBehind : ∀ before e after, es = before ++ e :: after → finishesOf before ≠ [] →
    e.visible = false
  noFunctionCall : ∀ choice ∈ choicesOf es, choice.functionCall.truthy = false
  texts : ∀ choice ∈ choicesOf es, ∀ key, choice.texts.get key = .null ∨
    ∃ s, choice.texts.get key = .str s
  indices : (∀ fragment ∈ fragmentsOf es, fragment.key ≠ none) ∧
    ∃ n : Nat, ∀ i, (∃ fragment ∈ fragmentsOf es, fragment.key = some i) ↔ 0 ≤ i ∧ i < n
  types : ∀ fragment ∈ fragmentsOf es,
    fragment.type = none ∨ fragment.type = some (.str "function")
  oneToolId : ∀ f ∈ fragmentsOf es, ∀ f' ∈ fragmentsOf es, f.key = f'.key →
    ∀ a b, given f.id = some a → given f'.id = some b → a = b

/-- The fragments of one tool call. -/
def fragmentsOn (i : Int) (es : List Event) : List Fragment :=
  (fragmentsOf es).filter fun fragment => fragment.key = some i

theorem fragmentsAt_eq {es : List Event} (hkeys : ∀ fragment ∈ fragmentsOf es, fragment.key ≠ none)
    (i : Int) : fragmentsAt i (keyedOf es) = (fragmentsOn i es).map Fragment.keyed := by
  rw [fragmentsAt, keyedOf, List.filter_map, fragmentsOn]
  congr 1
  refine List.filter_congr fun fragment hfragment => ?_
  obtain ⟨key, hkey⟩ := Option.ne_none_iff_exists'.1 (hkeys fragment hfragment)
  simp [Fragment.keyed, hkey]

theorem mem_choicesOf {es : List Event} {choice : Choice} :
    choice ∈ choicesOf es ↔ ∃ e ∈ es, choice ∈ e.choices := List.mem_flatMap

theorem mem_fragmentsOf {es : List Event} {fragment : Fragment} : fragment ∈ fragmentsOf es ↔
    ∃ e ∈ es, ∃ choice ∈ e.choices, fragment ∈ choice.toolCalls := by
  rw [fragmentsOf, List.mem_flatMap]
  constructor
  · rintro ⟨choice, hchoice, hfragment⟩
    obtain ⟨e, he, hin⟩ := mem_choicesOf.1 hchoice
    exact ⟨e, he, choice, hin, hfragment⟩
  · rintro ⟨e, he, choice, hin, hfragment⟩
    exact ⟨choice, mem_choicesOf.2 ⟨e, he, hin⟩, hfragment⟩

theorem Valid.keys {es : List Event} (h : Valid es) :
    ∀ fragment ∈ fragmentsOf es, fragment.key ≠ none := by
  intro fragment hfragment
  obtain ⟨e, he, choice, hchoice, hin⟩ := mem_fragmentsOf.1 hfragment
  exact (h.plain e he).indices choice hchoice fragment hin

/-- The calls that the fragments make, in order. -/
def Calls (es : List Event) (calls : List Assembly.Call) : Prop :=
  ∀ i : Int, callOf ((fragmentsOn i es).map Fragment.keyed) =
    if 0 ≤ i then calls[i.toNat]? else none

theorem fragmentsOn_ne_nil {es : List Event} {i : Int} :
    (∃ fragment ∈ fragmentsOf es, fragment.key = some i) ↔
      (callOf ((fragmentsOn i es).map Fragment.keyed)).isSome := by
  rw [Option.isSome_iff_ne_none, Ne, Assembly.callOf_eq_none, List.map_eq_nil_iff, fragmentsOn,
    List.filter_eq_nil_iff]
  simp

theorem Calls.indices {es : List Event} {calls : List Assembly.Call} (h : Calls es calls) (i : Int) :
    (∃ fragment ∈ fragmentsOf es, fragment.key = some i) ↔ 0 ≤ i ∧ i < calls.length := by
  rw [fragmentsOn_ne_nil, h]
  split
  · rename_i hpos
    simp
    omega
  · rename_i hneg
    exact iff_of_false (by simp) fun h => hneg h.1

theorem exists_calls {es : List Event} {n : Nat}
    (h : ∀ i, (∃ fragment ∈ fragmentsOf es, fragment.key = some i) ↔ 0 ≤ i ∧ i < n) :
    ∃ calls, Calls es calls := by
  obtain ⟨hlength, hget⟩ := @Assembly.filterMap_range _
    (fun k => callOf ((fragmentsOn (k : Int) es).map Fragment.keyed)) n fun k hk =>
      fragmentsOn_ne_nil.1 ((h k).2 ⟨Int.natCast_nonneg k, Int.ofNat_lt.2 hk⟩)
  generalize (List.range n).filterMap _ = calls at hlength hget
  refine ⟨calls, fun i => ?_⟩
  have hnone : ¬ (0 ≤ i ∧ i < n) → callOf ((fragmentsOn i es).map Fragment.keyed) = none := by
    intro hout
    rw [← h, fragmentsOn_ne_nil] at hout
    exact Option.not_isSome_iff_eq_none.1 hout
  split
  · rename_i hpos
    obtain ⟨k, rfl⟩ := Int.eq_ofNat_of_zero_le hpos
    by_cases hk : k < n
    · exact (hget k hk).symm
    · rw [hnone (by omega), eq_comm, List.getElem?_eq_none_iff, hlength]
      simpa using hk
  · rename_i hneg
    exact hnone fun h => hneg h.1

/-- The grammar is what the loop and the end check together. -/
theorem grammar_iff {es : List Event} : Grammar es ↔
    Valid es ∧ finishesOf es ≠ [] ∧ ∃ calls, Calls es calls := by
  constructor
  · intro h
    obtain ⟨finish, hfinish⟩ := h.oneFinish
    obtain ⟨n, hn⟩ := h.indices.2
    refine ⟨⟨fun e he => ⟨h.noError e he, h.single e he, fun choice hchoice =>
        h.texts choice (mem_choicesOf.2 ⟨e, he, hchoice⟩), fun choice hchoice =>
        h.noFunctionCall choice (mem_choicesOf.2 ⟨e, he, hchoice⟩),
        fun choice hchoice fragment hin =>
          h.indices.1 fragment (mem_fragmentsOf.2 ⟨e, he, choice, hchoice, hin⟩),
        fun choice hchoice fragment hin =>
          h.types fragment (mem_fragmentsOf.2 ⟨e, he, choice, hchoice, hin⟩)⟩,
      h.oneId, ?_, by rw [hfinish]; exact Nat.le_refl 1, h.nothingBehind⟩, by rw [hfinish]; simp,
      exists_calls hn⟩
    intro f hf f' hf' hkey a b ha hb
    obtain ⟨g, hg, rfl⟩ := List.mem_map.1 hf
    obtain ⟨g', hg', rfl⟩ := List.mem_map.1 hf'
    obtain ⟨i, hi⟩ := Option.ne_none_iff_exists'.1 (h.indices.1 g hg)
    obtain ⟨i', hi'⟩ := Option.ne_none_iff_exists'.1 (h.indices.1 g' hg')
    have hsame : i = i' := by simpa [Fragment.keyed, hi, hi'] using hkey
    exact h.oneToolId g hg g' hg' (by rw [hi, hi', hsame]) a b ha hb
  · rintro ⟨hv, hne, calls, hcalls⟩
    refine ⟨fun e he => (hv.plain e he).noError, hv.oneId, fun e he => (hv.plain e he).single, ?_,
      hv.quiet, ?_, ?_, ⟨hv.keys, calls.length, hcalls.indices⟩, ?_, ?_⟩
    · obtain ⟨finish, rest, hfinishes⟩ := List.exists_cons_of_ne_nil hne
      have hlength := hv.finish
      rw [hfinishes, List.length_cons] at hlength
      have hrest : rest = [] := List.eq_nil_of_length_eq_zero (by omega)
      exact ⟨finish, by rw [hfinishes, hrest]⟩
    · intro choice hchoice
      obtain ⟨e, he, hin⟩ := mem_choicesOf.1 hchoice
      exact (hv.plain e he).noFunctionCall choice hin
    · intro choice hchoice
      obtain ⟨e, he, hin⟩ := mem_choicesOf.1 hchoice
      exact (hv.plain e he).texts choice hin
    · intro fragment hfragment
      obtain ⟨e, he, choice, hchoice, hin⟩ := mem_fragmentsOf.1 hfragment
      exact (hv.plain e he).types choice hchoice fragment hin
    · intro f hf f' hf' hkey a b ha hb
      exact hv.idsAgree f.keyed (List.mem_map_of_mem hf) f'.keyed (List.mem_map_of_mem hf')
        (congrArg (Option.getD · 0) hkey) a b ha hb

/-! ## The message -/

/-- The message of a stream, with the receipt times of its events. -/
structure Streamed (ts : List (Nat × Event)) (r : Result) : Prop where
  texts : ∀ key, r.texts.get key = textOf (textsAt key (piecesOf (ts.map Prod.snd)))
  finishReason : finishesOf (ts.map Prod.snd) = [r.finishReason]
  indices : ∀ i : Int, (∃ fragment ∈ fragmentsOf (ts.map Prod.snd), fragment.key = some i) ↔
    0 ≤ i ∧ i < r.toolCalls.length
  toolCalls : ∀ (n : Nat) call, r.toolCalls[n]? = some call →
    let fragments := fragmentsOn n (ts.map Prod.snd)
    call.name = String.join (fragments.map fun fragment => fragment.name.getD "") ∧
    call.arguments = String.join (fragments.map fun fragment => fragment.arguments.getD "") ∧
    ∀ a, call.id = some a ↔ ∃ fragment ∈ fragments, given fragment.id = some a
  completionId : ∀ a, r.completionId = some a ↔ a ∈ idsOf (ts.map Prod.snd)
  outputIds : r.outputIds = ts.flatMap fun t => t.2.completionTokenIds
  firstGenerated : (∀ t ∈ ts, t.1 ≠ 0) →
    r.firstGenerated = (ts.find? fun t => t.2.completionTokenIds ≠ []).map Prod.fst
  firstSemantic : (∀ t ∈ ts, t.1 ≠ 0) →
    r.firstSemantic = (ts.find? fun t => t.2.visible).map Prod.fst
  usage : r.usage = lastTruthy (ts.map fun t => t.2.usage)
  engineData : r.engineData = lastTruthy (ts.map fun t => t.2.engineData)

/-- Of clock readings that are not zero the first stays. -/
theorem firstReceived_filter (p : Nat × Event → Bool) {ts : List (Nat × Event)}
    (hclock : ∀ t ∈ ts, t.1 ≠ 0) :
    firstReceived ((ts.filter p).map Prod.fst) = (ts.find? p).map Prod.fst := by
  have hstays : ∀ (rs : List Nat) (first : Nat), first ≠ 0 →
      rs.foldl orReceived (some first) = some first := by
    intro rs first hfirst
    induction rs with
    | nil => rfl
    | cons r rs ih => rw [List.foldl_cons, orReceived, Option.filter_some_pos (by simpa using hfirst),
        Option.some_or, ih]
  induction ts with
  | nil => rfl
  | cons t ts ih =>
    obtain ⟨ht, hts⟩ := List.forall_mem_cons.1 hclock
    by_cases hp : p t = true
    · rw [List.filter_cons_of_pos hp, List.map_cons, List.find?_cons_of_pos hp]
      exact hstays _ _ ht
    · rw [List.filter_cons_of_neg hp, List.find?_cons_of_neg hp, ih hts]

theorem getLast?_of_agree {α : Type} {as : List α} (h : ∀ a ∈ as, ∀ b ∈ as, a = b) {a : α} :
    as.getLast? = some a ↔ a ∈ as := by
  refine ⟨List.mem_of_getLast?, fun ha => ?_⟩
  cases hlast : as.getLast? with
  | none => exact absurd (List.getLast?_eq_none_iff.1 hlast) (List.ne_nil_of_mem ha)
  | some last => rw [h last (List.mem_of_getLast? hlast) a ha]

theorem streamed_of_result {st : State} {ts : List (Nat × Event)} {r : Result}
    (hv : Valid (ts.map Prod.snd)) (hs : Seen { st with done := false } ts)
    (h : result st = .ok r) :
    finishesOf (ts.map Prod.snd) ≠ [] ∧ Calls (ts.map Prod.snd) r.toolCalls ∧ Streamed ts r := by
  have hcalls : ∀ i, st.calls.get? i =
      callOf ((fragmentsOn i (ts.map Prod.snd)).map Fragment.keyed) := by
    intro i
    rw [← fragmentsAt_eq hv.keys]
    exact Assembly.collectAll_eq_some.2 _ hs.calls i
  unfold result at h
  split at h
  · cases h
  rename_i calls hinOrder
  split at h
  · cases h
  rename_i finish hfinish
  split at h
  · cases h
    have hall : Calls (ts.map Prod.snd) calls := fun i =>
      (hcalls i).symm.trans (Assembly.inOrder_eq_some.1 hinOrder i)
    have hhead : (finishesOf (ts.map Prod.snd)).head? = some finish := hs.finish.symm.trans hfinish
    have hne : finishesOf (ts.map Prod.snd) ≠ [] := by
      intro hnil
      rw [hnil] at hhead
      cases hhead
    have hgrammar : Grammar (ts.map Prod.snd) := grammar_iff.2 ⟨hv, hne, calls, hall⟩
    refine ⟨hne, hall, ⟨fun key => ?_, ?_, hall.indices, ?_, ?_, hs.outputIds, ?_, ?_,
      hs.usage, hs.engineData⟩⟩
    · rw [get_messageTexts]
      exact (congrArg (FinMap.get? · key) hs.texts).trans (Assembly.get?_addTexts key _)
    · obtain ⟨finish', hone⟩ := hgrammar.oneFinish
      rw [hone] at hhead ⊢
      exact congrArg (fun f => [f]) (Option.some.inj hhead)
    · intro n call hcall
      have hcallOf := hall n
      rw [if_pos (Int.natCast_nonneg n), Int.toNat_natCast, hcall] at hcallOf
      obtain ⟨-, hid, hname, harguments⟩ := Assembly.callOf_eq_some hcallOf
      rw [List.map_map] at hname harguments
      refine ⟨hname, harguments, fun a => ?_⟩
      have hmem : ∀ b, b ∈ ((fragmentsOn n (ts.map Prod.snd)).map Fragment.keyed).filterMap
          Assembly.Fragment.id ↔
            ∃ fragment ∈ fragmentsOn n (ts.map Prod.snd), given fragment.id = some b := by
        intro b
        rw [List.filterMap_map, List.mem_filterMap]
        rfl
      rw [hid, getLast?_of_agree, hmem]
      intro b hb c hc
      obtain ⟨f, hf, hfb⟩ := (hmem b).1 hb
      obtain ⟨g, hg, hgc⟩ := (hmem c).1 hc
      obtain ⟨hf, hfkey⟩ := List.mem_filter.1 hf
      obtain ⟨hg, hgkey⟩ := List.mem_filter.1 hg
      exact hgrammar.oneToolId f hf g hg
        ((of_decide_eq_true hfkey).trans (of_decide_eq_true hgkey).symm) b c hfb hgc
    · intro a
      rw [← getLast?_of_agree hv.oneId]
      exact iff_of_eq (congrArg (· = some a) hs.completionId)
    · exact fun hclock => hs.firstGenerated.trans (firstReceived_filter _ hclock)
    · exact fun hclock => hs.firstSemantic.trans (firstReceived_filter _ hclock)
  · cases h

theorem result_of_grammar {st : State} {ts : List (Nat × Event)}
    (hg : Grammar (ts.map Prod.snd)) (hs : Seen { st with done := false } ts)
    (hdone : st.done = true) : ∃ r, result st = .ok r := by
  obtain ⟨hv, hne, calls, hcalls⟩ := grammar_iff.1 hg
  have hinOrder : inOrder st.calls = some calls := by
    refine Assembly.inOrder_eq_some.2 fun i => Eq.trans ?_ (hcalls i)
    rw [← fragmentsAt_eq hv.keys]
    exact Assembly.collectAll_eq_some.2 _ hs.calls i
  obtain ⟨finish, rest, hfinishes⟩ := List.exists_cons_of_ne_nil hne
  have hfinish : st.finish = some finish := by
    have hhead := hs.finish
    rw [hfinishes] at hhead
    exact hhead
  unfold result
  rw [hinOrder, hfinish, hdone]
  exact ⟨_, if_pos rfl⟩

/-- **The accepted streams and their messages**: a stream is accepted exactly if its last payload
and no other is `[DONE]` and the others are objects in the grammar, and the result is what they
hold. -/
theorem assemble_spec (loads : String → Loaded) (arrivals : List (Nat × String)) :
    ((∃ r, assemble loads arrivals = .ok r) ↔
      ∃ ts, Decoded loads arrivals ts ∧ Grammar (ts.map Prod.snd)) ∧
    ∀ r ts, assemble loads arrivals = .ok r → Decoded loads arrivals ts → Streamed ts r := by
  have hsound : ∀ r, assemble loads arrivals = .ok r → ∃ ts, Decoded loads arrivals ts ∧
      Grammar (ts.map Prod.snd) ∧ Streamed ts r := by
    intro r h
    obtain ⟨st, hst, h⟩ := Except.bind_eq_ok_iff.1 h
    have hdone : st.done = true := by
      unfold result at h
      split at h
      · cases h
      · split at h
        · cases h
        · split at h
          · rename_i hdone
            exact hdone
          · cases h
    obtain ⟨ts, hdecoded, hv, hs⟩ := addArrivals_sound hdone hst
    obtain ⟨hne, hcalls, hstreamed⟩ := streamed_of_result hv hs h
    exact ⟨ts, hdecoded, grammar_iff.2 ⟨hv, hne, _, hcalls⟩, hstreamed⟩
  refine ⟨⟨?_, ?_⟩, ?_⟩
  · rintro ⟨r, h⟩
    obtain ⟨ts, hdecoded, hgrammar, -⟩ := hsound r h
    exact ⟨ts, hdecoded, hgrammar⟩
  · rintro ⟨ts, hdecoded, hgrammar⟩
    obtain ⟨st, hst, hdone⟩ := addArrivals_complete hdecoded (grammar_iff.1 hgrammar).1
    obtain ⟨ts', hdecoded', -, hs⟩ := addArrivals_sound hdone hst
    rw [← decoded_unique hdecoded hdecoded'] at hs
    obtain ⟨r, hr⟩ := result_of_grammar hgrammar hs hdone
    exact ⟨r, Except.bind_eq_ok_iff.2 ⟨st, hst, hr⟩⟩
  · intro r ts h hdecoded
    obtain ⟨ts', hdecoded', -, hstreamed⟩ := hsound r h
    rw [decoded_unique hdecoded hdecoded']
    exact hstreamed

end ReedCode.NextTurn.Stream
