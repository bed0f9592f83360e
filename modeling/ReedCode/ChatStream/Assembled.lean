import ReedCode.ChatStream.Stream

/-!
# What a chat completion stream is assembled into

* `Valid` — what the loop checks, said of all chunks at once; `valid_append` says it of one more
  chunk.
* `Seen` — the local variables, given the chunks that came.
* `addChunk_spec`, `addChunks_spec` — a chunk is taken exactly if the chunks stay valid.
* `Assembles` — the completion of some chunks; `streamCompletion_spec`.
-/

set_option autoImplicit false

namespace ReedCode.ChatStream

open Assembly (IdsAgree collect fragmentsAt callOf textsAt textOf inOrder)

/-! ## What the chunks hold -/

def choicesOf (cs : List Chunk) : List Choice := cs.flatMap Chunk.choices

def partsOf (cs : List Chunk) : List Part := (choicesOf cs).flatMap fun ch => ch.delta.toolCalls

def fragmentsOf (cs : List Chunk) : List (Assembly.Fragment Int) :=
  (partsOf cs).map Part.fragment

/-- The pieces of text, in order; the loop skips the empty ones. -/
def piecesOf (cs : List Chunk) : List (TextKey × String) :=
  (choicesOf cs).flatMap fun ch => ch.delta.texts.pieces

def finishesOf (cs : List Chunk) : List String := (choicesOf cs).filterMap Choice.finishReason

def usagesOf (cs : List Chunk) : List Value := cs.filterMap Chunk.usage

def Chunk.outputs (c : Chunk) : Bool := c.choices.any fun ch => ch.delta.outputs

section Append

variable (xs ys : List Chunk)

theorem choicesOf_append : choicesOf (xs ++ ys) = choicesOf xs ++ choicesOf ys :=
  List.flatMap_append

theorem partsOf_append : partsOf (xs ++ ys) = partsOf xs ++ partsOf ys := by
  rw [partsOf, choicesOf_append, List.flatMap_append]
  rfl

theorem fragmentsOf_append : fragmentsOf (xs ++ ys) = fragmentsOf xs ++ fragmentsOf ys := by
  rw [fragmentsOf, partsOf_append, List.map_append]
  rfl

theorem piecesOf_append : piecesOf (xs ++ ys) = piecesOf xs ++ piecesOf ys := by
  rw [piecesOf, choicesOf_append, List.flatMap_append]
  rfl

theorem finishesOf_append : finishesOf (xs ++ ys) = finishesOf xs ++ finishesOf ys := by
  rw [finishesOf, choicesOf_append, List.filterMap_append]
  rfl

theorem usagesOf_append : usagesOf (xs ++ ys) = usagesOf xs ++ usagesOf ys :=
  List.filterMap_append

end Append

/-! ## What the loop checks -/

/-- What is checked of one chunk alone. -/
structure Chunk.Plain (c : Chunk) : Prop where
  single : ∀ ch ∈ c.choices, ch.index = 0 ∧ c.choices.length = 1
  texts : ∀ ch ∈ c.choices, ∀ key, (ch.delta.texts.get key).truthy = true →
    ∃ s, ch.delta.texts.get key = .str s
  noFunctionCall : ∀ ch ∈ c.choices, ch.delta.functionCall.truthy = false
  types : ∀ ch ∈ c.choices, ∀ part ∈ ch.delta.toolCalls, part.type.getD "function" = "function"

structure Valid (cs : List Chunk) : Prop where
  plain : ∀ c ∈ cs, c.Plain
  oneId : ∀ c ∈ cs, ∀ c' ∈ cs, c.id = c'.id
  idsAgree : IdsAgree (fragmentsOf cs)
  finish : (finishesOf cs).length ≤ 1
  quiet : ∀ before c after, cs = before ++ c :: after → finishesOf before ≠ [] → c.outputs = false

/-- What is checked of one more chunk. -/
structure Fits (cs : List Chunk) (c : Chunk) : Prop where
  plain : c.Plain
  oneId : ∀ c' ∈ cs, c'.id = c.id
  idsAgree : IdsAgree (fragmentsOf cs ++ fragmentsOf [c])
  finish : finishesOf cs ≠ [] → finishesOf [c] = []
  quiet : finishesOf cs ≠ [] → c.outputs = false

theorem finishes_plain {c : Chunk} (h : c.Plain) : (finishesOf [c]).length ≤ 1 := by
  have hchoices : choicesOf [c] = c.choices := List.append_nil _
  rw [finishesOf, hchoices]
  refine (List.length_filterMap_le _ _).trans ?_
  cases hc : c.choices with
  | nil => exact Nat.zero_le 1
  | cons ch rest => exact hc ▸ Nat.le_of_eq (h.single ch (by rw [hc]; simp)).2

theorem valid_append {cs : List Chunk} {c : Chunk} :
    Valid (cs ++ [c]) ↔ Valid cs ∧ Fits cs c := by
  constructor
  · intro h
    obtain ⟨hquiet, hlast⟩ := Assembly.forall_split_append_singleton.1 h.quiet
    have hfinish := h.finish
    rw [finishesOf_append, List.length_append] at hfinish
    refine ⟨⟨fun c' hc' => h.plain c' (List.mem_append_left _ hc'), fun c₁ h₁ c₂ h₂ =>
      h.oneId c₁ (List.mem_append_left _ h₁) c₂ (List.mem_append_left _ h₂), ?_, by omega, hquiet⟩,
      ⟨h.plain c (by simp), fun c' hc' => h.oneId c' (List.mem_append_left _ hc') c (by simp), ?_,
        fun hne => ?_, hlast⟩⟩
    · have hagree := h.idsAgree
      rw [fragmentsOf_append] at hagree
      exact hagree.of_append
    · rw [← fragmentsOf_append]
      exact h.idsAgree
    · have hpos := List.length_pos_of_ne_nil hne
      exact List.eq_nil_of_length_eq_zero (by omega)
  · rintro ⟨h, hc⟩
    refine ⟨?_, ?_, ?_, ?_, Assembly.forall_split_append_singleton.2 ⟨h.quiet, hc.quiet⟩⟩
    · intro c' hc'
      rcases List.mem_append.1 hc' with hc' | hc'
      · exact h.plain c' hc'
      · rw [List.mem_singleton.1 hc']
        exact hc.plain
    · intro c₁ h₁ c₂ h₂
      rw [List.mem_append, List.mem_singleton] at h₁ h₂
      rcases h₁ with h₁ | rfl <;> rcases h₂ with h₂ | rfl
      · exact h.oneId c₁ h₁ c₂ h₂
      · exact hc.oneId c₁ h₁
      · exact (hc.oneId c₂ h₂).symm
      · rfl
    · rw [fragmentsOf_append]
      exact hc.idsAgree
    · rw [finishesOf_append, List.length_append]
      by_cases hne : finishesOf cs = []
      · rw [hne]
        exact (Nat.zero_add _).trans_le (finishes_plain hc.plain)
      · rw [hc.finish hne]
        exact h.finish

theorem Valid.of_append {xs : List Chunk} : ∀ {ys : List Chunk}, Valid (xs ++ ys) → Valid xs
  | [], h => by rwa [List.append_nil] at h
  | y :: ys, h => by
    rw [List.append_cons] at h
    exact (valid_append.1 h.of_append).1

/-! ## One choice -/

/-- The pieces that the loop adds. -/
def spoken (pieces : List (TextKey × String)) : List (TextKey × String) :=
  pieces.filter fun piece => piece.2 ≠ ""

theorem addText_eq_ok {delta : Delta} {texts texts' : FinMap TextKey String} {key : TextKey} :
    addText delta texts key = .ok texts' ↔
      ((delta.texts.get key).truthy = true → ∃ s, delta.texts.get key = .str s) ∧
      texts' = (spoken ((delta.texts.text? key).map (key, ·)).toList).foldl Assembly.addText
        texts := by
  unfold addText DeltaTexts.text?
  cases hv : delta.texts.get key with
  | str s =>
    by_cases hs : s = ""
    · subst hs
      exact Except.ok_eq_iff fun _ => ⟨_, rfl⟩
    · have htruthy : (Value.str s).truthy = true := by simp [Value.truthy, hs]
      have hspoken : spoken ((some s).map (key, ·)).toList = [(key, s)] := by simp [spoken, hs]
      rw [if_pos htruthy]
      dsimp only
      rw [hspoken]
      exact Except.ok_eq_iff fun _ => ⟨_, rfl⟩
  | _ =>
    split
    · rename_i htruthy
      refine iff_of_false (fun he => (by cases he)) fun he => ?_
      obtain ⟨s, hs⟩ := he.1 htruthy
      cases hs
    · rename_i htruthy
      exact Except.ok_eq_iff fun hpos => absurd hpos htruthy

theorem addTexts_eq_ok {delta : Delta} : ∀ {keys : List TextKey}
    {texts texts' : FinMap TextKey String}, keys.foldlM (addText delta) texts = .ok texts' ↔
      (∀ key ∈ keys, (delta.texts.get key).truthy = true → ∃ s, delta.texts.get key = .str s) ∧
      texts' = (spoken (keys.filterMap fun key => (delta.texts.text? key).map (key, ·))).foldl
        Assembly.addText texts
  | [], texts, texts' => Except.ok_eq_iff fun _ h => (by cases h)
  | key :: keys, texts, texts' => by
    have hsplit : spoken ((key :: keys).filterMap fun key => (delta.texts.text? key).map (key, ·)) =
        spoken ((delta.texts.text? key).map (key, ·)).toList ++
          spoken (keys.filterMap fun key => (delta.texts.text? key).map (key, ·)) := by
      rw [spoken, spoken, spoken, ← List.filter_append]
      congr 1
      cases htext : delta.texts.text? key with
      | none => exact List.filterMap_cons_none (by rw [htext]; rfl)
      | some text => exact List.filterMap_cons_some (by rw [htext]; rfl)
    rw [List.foldlM_cons, Except.bind_eq_ok_iff, hsplit, List.foldl_append, List.forall_mem_cons]
    constructor
    · rintro ⟨texts₁, h₁, h₂⟩
      obtain ⟨hkey, rfl⟩ := addText_eq_ok.1 h₁
      obtain ⟨hkeys, hresult⟩ := addTexts_eq_ok.1 h₂
      exact ⟨⟨hkey, hkeys⟩, hresult⟩
    · rintro ⟨⟨hkey, hkeys⟩, hresult⟩
      exact ⟨_, addText_eq_ok.2 ⟨hkey, rfl⟩, addTexts_eq_ok.2 ⟨hkeys, hresult⟩⟩

theorem addPart_eq_ok {calls calls' : FinMap Int Assembly.Call} {part : Part} :
    addPart calls part = .ok calls' ↔
      part.type.getD "function" = "function" ∧ collect calls part.fragment = some calls' := by
  unfold addPart
  split
  · rename_i h
    exact iff_of_false (by simp) fun he => h he.1
  · rename_i h
    cases collect calls part.fragment with
    | none => simp
    | some calls₁ => simp [Classical.not_not.1 h]

theorem addParts_eq_ok : ∀ {parts : List Part} {calls calls' : FinMap Int Assembly.Call},
    parts.foldlM addPart calls = .ok calls' ↔
      (∀ part ∈ parts, part.type.getD "function" = "function") ∧
        (parts.map Part.fragment).foldlM collect calls = some calls'
  | [], calls, calls' => by simp [pure, Except.pure]
  | part :: parts, calls, calls' => by
    rw [List.foldlM_cons, Except.bind_eq_ok_iff, List.map_cons, List.foldlM_cons,
      List.forall_mem_cons, Option.bind_eq_bind, Option.bind_eq_some_iff]
    constructor
    · rintro ⟨calls₁, h₁, h₂⟩
      obtain ⟨htype, hcall⟩ := addPart_eq_ok.1 h₁
      obtain ⟨htypes, hcalls⟩ := addParts_eq_ok.1 h₂
      exact ⟨⟨htype, htypes⟩, calls₁, hcall, hcalls⟩
    · rintro ⟨⟨htype, htypes⟩, calls₁, hcall, hcalls⟩
      exact ⟨calls₁, addPart_eq_ok.2 ⟨htype, hcall⟩, addParts_eq_ok.2 ⟨htypes, hcalls⟩⟩

/-- What a choice does to the variables. -/
def State.afterChoice (st : State) (elapsed : Rat) (ch : Choice)
    (calls : FinMap Int Assembly.Call) : State :=
  { st with
    texts := (spoken ch.delta.texts.pieces).foldl Assembly.addText st.texts
    calls
    firstOutput :=
      if ch.delta.visible ∧ st.firstOutput = none then some elapsed else st.firstOutput
    finish := ch.finishReason.or st.finish }

theorem addChoice_eq_ok {elapsed : Rat} {count : Nat} {st st' : State} {ch : Choice} :
    addChoice elapsed count st ch = .ok st' ↔
      (ch.index = 0 ∧ count = 1) ∧ ¬ (st.finish.isSome ∧ ch.delta.outputs) ∧
      (∀ key, (ch.delta.texts.get key).truthy = true → ∃ s, ch.delta.texts.get key = .str s) ∧
      ch.delta.functionCall.truthy = false ∧
      (∀ part ∈ ch.delta.toolCalls, part.type.getD "function" = "function") ∧
      ¬ (ch.finishReason.isSome ∧ st.finish.isSome) ∧
      ∃ calls, (ch.delta.toolCalls.map Part.fragment).foldlM collect st.calls = some calls ∧
        st' = st.afterChoice elapsed ch calls := by
  unfold addChoice
  simp only [Except.bind_eq_ok_iff, Except.failIf_eq_ok, exists_const, pure, Except.pure,
    Except.ok.injEq]
  constructor
  · rintro ⟨hindex, hquiet, texts, htexts, hlegacy, calls, hcalls, hfinish, rfl⟩
    obtain ⟨hstrings, rfl⟩ := addTexts_eq_ok.1 htexts
    obtain ⟨htypes, hcollect⟩ := addParts_eq_ok.1 hcalls
    rw [not_or, Classical.not_not, Classical.not_not] at hindex
    exact ⟨hindex, hquiet, fun key => hstrings key (TextKey.mem_all key),
      Bool.eq_false_iff.2 hlegacy, htypes, hfinish, calls, hcollect, rfl⟩
  · rintro ⟨hindex, hquiet, hstrings, hlegacy, htypes, hfinish, calls, hcollect, rfl⟩
    rw [not_or, Classical.not_not, Classical.not_not]
    exact ⟨hindex, hquiet, _, addTexts_eq_ok.2 ⟨fun key _ => hstrings key, rfl⟩,
      Bool.eq_false_iff.1 hlegacy, calls, addParts_eq_ok.2 ⟨htypes, hcollect⟩, hfinish, rfl⟩

/-! ## One chunk -/

/-- The local variables behind some chunks. -/
structure Seen (st : State) (cs : List Chunk) : Prop where
  texts : st.texts = (spoken (piecesOf cs)).foldl Assembly.addText .empty
  calls : (fragmentsOf cs).foldlM collect .empty = some st.calls
  finish : st.finish = (finishesOf cs).head?
  usage : st.usage = (usagesOf cs).getLast?
  model : st.model = cs.getLast?.map Chunk.model
  completionId : st.completionId = cs.getLast?.map Chunk.id

theorem seen_new : Seen .new [] := ⟨rfl, rfl, rfl, rfl, rfl, rfl⟩

/-- The state in which the choices of a chunk are read. -/
def State.opened (st : State) (c : Chunk) : State :=
  { st with
    chunks := st.chunks + 1
    completionId := some c.id
    model := some c.model
    usage := c.usage.or st.usage }

theorem addChunk_eq_ok {elapsed : Rat} {st st' : State} {c : Chunk} :
    addChunk st (elapsed, c) = .ok st' ↔ ¬ (st.completionId.any (· ≠ c.id) = true) ∧
      c.choices.foldlM (addChoice elapsed c.choices.length) (st.opened c) = .ok st' := by
  unfold addChunk
  simp only [Except.bind_eq_ok_iff, Except.failIf_eq_ok, exists_const]
  rfl

/-- Two choices are refused at the first. -/
theorem foldlM_addChoice {elapsed : Rat} {st st' : State} {choices : List Choice} :
    choices.foldlM (addChoice elapsed choices.length) st = .ok st' ↔
      (choices = [] ∧ st' = st) ∨ ∃ ch, choices = [ch] ∧ addChoice elapsed 1 st ch = .ok st' := by
  match choices with
  | [] =>
    refine (Except.ok_eq_iff (P := ([] : List Choice) = []) rfl).trans (or_iff_left ?_).symm
    rintro ⟨ch, hch, -⟩
    cases hch
  | [ch] =>
    rw [List.foldlM_cons, Except.bind_eq_ok_iff]
    constructor
    · rintro ⟨st₁, h, hrest⟩
      cases hrest
      exact Or.inr ⟨ch, rfl, h⟩
    · rintro (⟨hnil, -⟩ | ⟨ch', hch, h⟩)
      · cases hnil
      · cases hch
        exact ⟨st', h, rfl⟩
  | ch :: ch' :: rest =>
    rw [List.foldlM_cons, Except.bind_eq_ok_iff]
    constructor
    · rintro ⟨st₁, h, -⟩
      have hlength := (addChoice_eq_ok.1 h).1.2
      simp at hlength
    · rintro (⟨hnil, -⟩ | ⟨ch'', hch, -⟩)
      · cases hnil
      · cases hch

theorem choicesOf_singleton (c : Chunk) : choicesOf [c] = c.choices := List.append_nil _

theorem seen_opened {st : State} {cs : List Chunk} {c : Chunk} (hs : Seen st cs)
    (hempty : c.choices = []) : Seen (st.opened c) (cs ++ [c]) := by
  have hchoices : choicesOf (cs ++ [c]) = choicesOf cs := by
    rw [choicesOf_append, choicesOf_singleton, hempty, List.append_nil]
  refine ⟨?_, ?_, ?_, ?_, ?_, ?_⟩
  · rw [piecesOf, hchoices]
    exact hs.texts
  · rw [fragmentsOf, partsOf, hchoices]
    exact hs.calls
  · rw [finishesOf, hchoices]
    exact hs.finish
  · rw [usagesOf_append, List.getLast?_append, ← hs.usage]
    cases hu : c.usage <;> simp [State.opened, usagesOf, hu]
  · rw [List.getLast?_concat]
    rfl
  · rw [List.getLast?_concat]
    rfl

theorem seen_choice {st : State} {cs : List Chunk} {c : Chunk} {ch : Choice} {elapsed : Rat}
    {calls : FinMap Int Assembly.Call} (hs : Seen st cs) (hone : c.choices = [ch])
    (hcalls : (ch.delta.toolCalls.map Part.fragment).foldlM collect st.calls = some calls)
    (hfinish : ¬ (ch.finishReason.isSome ∧ st.finish.isSome)) :
    Seen ((st.opened c).afterChoice elapsed ch calls) (cs ++ [c]) := by
  have hchoices : choicesOf [c] = [ch] := (choicesOf_singleton c).trans hone
  refine ⟨?_, ?_, ?_, ?_, ?_, ?_⟩
  · have hpieces : piecesOf [c] = ch.delta.texts.pieces := by
      rw [piecesOf, hchoices, List.flatMap_singleton]
    rw [piecesOf_append, spoken, List.filter_append, List.foldl_append, hpieces]
    exact congrArg ((spoken ch.delta.texts.pieces).foldl Assembly.addText ·) hs.texts
  · have hfragments : fragmentsOf [c] = ch.delta.toolCalls.map Part.fragment := by
      rw [fragmentsOf, partsOf, hchoices, List.flatMap_singleton]
    rw [fragmentsOf_append, List.foldlM_append, hs.calls, hfragments]
    exact hcalls
  · rw [finishesOf_append, List.head?_append, ← hs.finish, finishesOf, hchoices]
    cases hf : ch.finishReason with
    | none =>
      rw [List.filterMap_cons_none hf, List.filterMap_nil, List.head?_nil, Option.or_none]
      exact congrArg (Option.or · st.finish) hf
    | some finish =>
      rw [hf, Option.isSome_some] at hfinish
      have hnone : st.finish = none := Option.not_isSome_iff_eq_none.1 fun h => hfinish ⟨rfl, h⟩
      rw [List.filterMap_cons_some hf, List.head?_cons, hnone, Option.none_or]
      exact congrArg (Option.or · st.finish) hf
  · rw [usagesOf_append, List.getLast?_append, ← hs.usage]
    cases hu : c.usage <;> simp [State.afterChoice, State.opened, usagesOf, hu]
  · rw [List.getLast?_concat]
    rfl
  · rw [List.getLast?_concat]
    rfl

/-- What a chunk must meet, as the variables have it. -/
theorem fits_iff {st : State} {cs : List Chunk} {c : Chunk} (hv : Valid cs) (hs : Seen st cs) :
    Fits cs c ↔ ¬ (st.completionId.any (· ≠ c.id) = true) ∧ c.Plain ∧
      (st.finish.isSome → finishesOf [c] = [] ∧ c.outputs = false) ∧
      ∃ calls, (fragmentsOf [c]).foldlM collect st.calls = some calls := by
  have hid : ¬ (st.completionId.any (· ≠ c.id) = true) ↔ ∀ c' ∈ cs, c'.id = c.id := by
    rw [hs.completionId]
    cases hlast : cs.getLast? with
    | none =>
      rw [List.getLast?_eq_none_iff.1 hlast]
      simp
    | some last =>
      have hmem := List.mem_of_getLast? hlast
      simp only [Option.map_some, Option.any_some, decide_eq_true_eq, ne_eq, Classical.not_not]
      exact ⟨fun he c' hc' => (hv.oneId c' hc' last hmem).trans he, fun hall => hall last hmem⟩
  have hfinish : st.finish.isSome = true ↔ finishesOf cs ≠ [] := by
    rw [hs.finish, List.isSome_head?]
  have hcollect : (∃ calls, (fragmentsOf [c]).foldlM collect st.calls = some calls) ↔
      IdsAgree (fragmentsOf cs ++ fragmentsOf [c]) := by
    rw [← Assembly.collectAll_eq_some.1, List.foldlM_append, hs.calls, Option.isSome_iff_exists]
    rfl
  rw [hid, hfinish, hcollect]
  constructor
  · intro h
    exact ⟨h.oneId, h.plain, fun hne => ⟨h.finish hne, h.quiet hne⟩, h.idsAgree⟩
  · rintro ⟨hone, hplain, hlate, hagree⟩
    exact ⟨hplain, hone, hagree, fun hne => (hlate hne).1, fun hne => (hlate hne).2⟩

/-- A taken chunk fits, and the variables stay those of the chunks. -/
theorem addChunk_taken {elapsed : Rat} {st st' : State} {cs : List Chunk} {c : Chunk}
    (hv : Valid cs) (hs : Seen st cs) (h : addChunk st (elapsed, c) = .ok st') :
    Fits cs c ∧ Seen st' (cs ++ [c]) := by
  obtain ⟨hid, hchoices⟩ := addChunk_eq_ok.1 h
  rcases foldlM_addChoice.1 hchoices with ⟨hempty, rfl⟩ | ⟨ch, hone, hch⟩
  · refine ⟨(fits_iff hv hs).2 ⟨hid, ?_, fun _ => ?_, st.calls, ?_⟩, seen_opened hs hempty⟩
    · constructor <;> rw [hempty] <;> exact fun _ h => (by cases h)
    · rw [finishesOf, choicesOf_singleton, Chunk.outputs, hempty]
      exact ⟨rfl, rfl⟩
    · rw [fragmentsOf, partsOf, choicesOf_singleton, hempty]
      rfl
  · obtain ⟨⟨hindex, hcount⟩, hquiet, hstrings, hlegacy, htypes, hfinish, calls, hcalls, rfl⟩ :=
      addChoice_eq_ok.1 hch
    have hmem : ∀ ch' ∈ c.choices, ch' = ch := by
      rw [hone]
      exact fun ch' hch' => List.mem_singleton.1 hch'
    refine ⟨(fits_iff hv hs).2 ⟨hid, ?_, fun hlate => ?_, calls, ?_⟩,
      seen_choice hs hone hcalls hfinish⟩
    · constructor <;> intro ch' hch' <;> obtain rfl := hmem ch' hch'
      · exact ⟨hindex, by rw [hone, List.length_singleton]⟩
      · exact hstrings
      · exact hlegacy
      · exact htypes
    · rw [finishesOf, choicesOf_singleton, Chunk.outputs, hone]
      constructor
      · rw [List.filterMap_cons_none, List.filterMap_nil]
        exact Option.not_isSome_iff_eq_none.1 fun h => hfinish ⟨h, hlate⟩
      · rw [List.any_cons, List.any_nil, Bool.or_false]
        exact Bool.eq_false_iff.2 fun h => hquiet ⟨hlate, h⟩
    · rw [fragmentsOf, partsOf, choicesOf_singleton, hone, List.flatMap_singleton]
      exact hcalls

theorem addChunk_of_fits (elapsed : Rat) {st : State} {cs : List Chunk} {c : Chunk}
    (hv : Valid cs) (hs : Seen st cs) (h : Fits cs c) :
    ∃ st', addChunk st (elapsed, c) = .ok st' := by
  obtain ⟨hid, hplain, hlate, calls, hcalls⟩ := (fits_iff hv hs).1 h
  cases hchoices : c.choices with
  | nil =>
    exact ⟨_, addChunk_eq_ok.2 ⟨hid, foldlM_addChoice.2 (Or.inl ⟨hchoices, rfl⟩)⟩⟩
  | cons ch rest =>
    have hmem : ch ∈ c.choices := by rw [hchoices]; simp
    obtain ⟨hindex, hcount⟩ := hplain.single ch hmem
    have hone : c.choices = [ch] := by
      rw [hchoices, List.length_cons, Nat.add_eq_right, List.length_eq_zero_iff] at hcount
      rw [hchoices, hcount]
    have hfinishes : finishesOf [c] = [ch].filterMap Choice.finishReason := by
      rw [finishesOf, choicesOf_singleton, hone]
    have houtputs : c.outputs = ch.delta.outputs := by
      rw [Chunk.outputs, hone, List.any_cons, List.any_nil, Bool.or_false]
    rw [fragmentsOf, partsOf, choicesOf_singleton, hone, List.flatMap_singleton] at hcalls
    refine ⟨_, addChunk_eq_ok.2 ⟨hid, foldlM_addChoice.2 (Or.inr ⟨ch, hone, addChoice_eq_ok.2
      ⟨⟨hindex, rfl⟩, fun hq => ?_, hplain.texts ch hmem, hplain.noFunctionCall ch hmem,
        hplain.types ch hmem, fun hf => ?_, calls, hcalls, rfl⟩⟩)⟩⟩
    · have hquiet := (hlate hq.1).2
      rw [houtputs, hq.2] at hquiet
      cases hquiet
    · obtain ⟨finish, hfinish⟩ := Option.isSome_iff_exists.1 hf.1
      have hnil := (hlate hf.2).1
      rw [hfinishes, List.filterMap_cons_some hfinish] at hnil
      cases hnil

/-- **The loop**: it ends well exactly if the chunks are valid. -/
theorem addChunks_spec : ∀ {arrivals : List (Rat × Chunk)} {st : State} {cs : List Chunk},
    Valid cs → Seen st cs →
      (∀ st', arrivals.foldlM addChunk st = .ok st' →
        Valid (cs ++ arrivals.map Prod.snd) ∧ Seen st' (cs ++ arrivals.map Prod.snd)) ∧
      (Valid (cs ++ arrivals.map Prod.snd) → ∃ st', arrivals.foldlM addChunk st = .ok st')
  | [], st, cs, hv, hs => by
    rw [List.map_nil, List.append_nil]
    refine ⟨fun st' h => ?_, fun _ => ⟨st, rfl⟩⟩
    cases h
    exact ⟨hv, hs⟩
  | (elapsed, c) :: arrivals, st, cs, hv, hs => by
    rw [List.map_cons, List.append_cons, List.foldlM_cons]
    constructor
    · intro st' h
      obtain ⟨st₁, h₁, hrest⟩ := Except.bind_eq_ok_iff.1 h
      obtain ⟨hfits, hs₁⟩ := addChunk_taken hv hs h₁
      exact (addChunks_spec (valid_append.2 ⟨hv, hfits⟩) hs₁).1 st' hrest
    · intro hall
      have hnext := hall.of_append
      obtain ⟨st₁, h₁⟩ := addChunk_of_fits elapsed hv hs (valid_append.1 hnext).2
      obtain ⟨_, hs₁⟩ := addChunk_taken hv hs h₁
      obtain ⟨_, hrest⟩ := @addChunks_spec arrivals _ _ hnext hs₁
      obtain ⟨st', h'⟩ := hrest hall
      exact ⟨st', Except.bind_eq_ok_iff.2 ⟨st₁, h₁, h'⟩⟩

/-! ## The completion -/

/-- The completion that some chunks make. -/
structure Assembles (cs : List Chunk) (completion : Completion) : Prop where
  id : completion.id = cs.getLast?.map Chunk.id
  model : completion.model = cs.getLast?.map Chunk.model
  finishReason : (finishesOf cs).head? = some completion.finishReason
  texts : ∀ key, completion.texts.get key = textOf (textsAt key (spoken (piecesOf cs)))
  toolCalls : ∃ calls : List Assembly.Call,
    (∀ i : Int, callOf (fragmentsAt i (fragmentsOf cs)) =
      if 0 ≤ i then calls[i.toNat]? else none) ∧
    completion.toolCalls = calls.map (closeCall completion.finishReason)
  usage : completion.usage = (usagesOf cs).getLast?

theorem complete_eq_ok {V : Validation} {st : State} {cs : List Chunk} {completion : Completion}
    (hs : Seen st cs) :
    complete V st = .ok completion ↔ Assembles cs completion ∧ V.accepts completion = true := by
  have hcalls : ∀ i, st.calls.get? i = callOf (fragmentsAt i (fragmentsOf cs)) :=
    Assembly.collectAll_eq_some.2 _ hs.calls
  have htexts : ∀ key, (messageTexts st.texts).get key =
      textOf (textsAt key (spoken (piecesOf cs))) := by
    intro key
    rw [get_messageTexts, hs.texts, Assembly.get?_addTexts]
  unfold complete
  constructor
  · intro h
    split at h
    · cases h
    rename_i finish hfinish
    split at h
    · cases h
    rename_i calls hinOrder
    dsimp only at h
    split at h
    · rename_i haccepts
      cases h
      refine ⟨⟨hs.completionId, hs.model, hs.finish.symm.trans hfinish, htexts, ⟨calls, ?_, rfl⟩,
        hs.usage⟩, haccepts⟩
      intro i
      rw [← hcalls]
      exact Assembly.inOrder_eq_some.1 hinOrder i
    · cases h
  · rintro ⟨⟨hid, hmodel, hfinish, hmessage, ⟨calls, hall, htools⟩, husage⟩, haccepts⟩
    have hinOrder : inOrder st.calls = some calls :=
      Assembly.inOrder_eq_some.2 fun i => (hcalls i).trans (hall i)
    have heq : completion = ⟨st.completionId, st.model, completion.finishReason,
        messageTexts st.texts, calls.map (closeCall completion.finishReason), st.usage⟩ := by
      obtain ⟨id, model, finish, texts, tools, usage⟩ := completion
      dsimp only at hid hmodel hfinish hmessage htools husage ⊢
      rw [hid, hmodel, htools, husage, hs.completionId, hs.model, hs.usage]
      congr 1
      exact MessageTexts.ext_get fun key => (hmessage key).trans (htexts key).symm
    rw [hs.finish, hfinish, hinOrder]
    dsimp only
    rw [← heq, if_pos haccepts]

/-- **A stream is taken exactly if it is valid**, and what comes back is what its chunks make. -/
theorem streamCompletion_spec {V : Validation} {arrivals : List (Rat × Chunk)}
    {completion : Completion} :
    (∃ timing, streamCompletion V arrivals = .ok (completion, timing)) ↔
      Valid (arrivals.map Prod.snd) ∧ Assembles (arrivals.map Prod.snd) completion ∧
        V.accepts completion = true := by
  have hempty : Valid [] := by
    refine ⟨?_, ?_, ?_, Nat.zero_le 1, ?_⟩
    · exact fun _ h => (by cases h)
    · exact fun _ h => (by cases h)
    · exact fun _ h => (by cases h)
    · intro before c after he
      exact absurd he (by simp)
  obtain ⟨htaken, hexists⟩ := @addChunks_spec arrivals _ _ hempty seen_new
  rw [List.nil_append] at htaken hexists
  unfold streamCompletion
  constructor
  · rintro ⟨timing, h⟩
    obtain ⟨st, hst, h⟩ := Except.bind_eq_ok_iff.1 h
    obtain ⟨completion', hcompletion, h⟩ := Except.bind_eq_ok_iff.1 h
    cases h
    obtain ⟨hv, hs⟩ := htaken st hst
    exact ⟨hv, (complete_eq_ok hs).1 hcompletion⟩
  · rintro ⟨hv, hassembles⟩
    obtain ⟨st, hst⟩ := hexists hv
    have hcompletion := (complete_eq_ok (htaken st hst).2).2 hassembles
    exact ⟨_, Except.bind_eq_ok_iff.2 ⟨st, hst, Except.bind_eq_ok_iff.2 ⟨_, hcompletion, rfl⟩⟩⟩

end ReedCode.ChatStream
