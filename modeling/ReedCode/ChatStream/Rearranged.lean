import Mathlib.Logic.Relation
import ReedCode.ChatStream.Assembled

/-!
# Streams that say the same

How a server cuts a message into chunks, and how it interleaves what belongs to different fields or
tools, is not part of the message.

* `Splits`, `Apart`, `Step` — a chunk cut in two; two chunks that have nothing in common, swapped.
* `Same` — two streams with the same summary; `Same.append`, `Same.valid`, `Same.assembles`.
* `same_of_step` — a step keeps the summary.
-/

set_option autoImplicit false

namespace ReedCode.ChatStream

open Assembly (IdsAgree fragmentsAt callOf textsAt textOf)

/-! ## Cutting and swapping chunks -/

inductive TextSplit : Value → Value → Value → Prop where
  | first (v : Value) : TextSplit v v .null
  | second (v : Value) : TextSplit v .null v
  | cut (s t : String) : TextSplit (.str (s ++ t)) (.str s) (.str t)

/-- The id comes with the first half, and may be said again. -/
structure PartSplit (p p₁ p₂ : Part) : Prop where
  index : p₁.index = p.index ∧ p₂.index = p.index
  type : p₁.type = p.type ∧ (p₂.type = none ∨ p₂.type = p.type)
  id : p₁.id = p.id ∧ (p₂.id = none ∨ p₂.id = p.id)
  name : p.name.getD "" = p₁.name.getD "" ++ p₂.name.getD ""
  arguments : p.arguments.getD "" = p₁.arguments.getD "" ++ p₂.arguments.getD ""

inductive ToolsSplit : List Part → List Part → List Part → Prop where
  | between (xs ys : List Part) : ToolsSplit (xs ++ ys) xs ys
  | within (xs ys : List Part) {p p₁ p₂ : Part} (h : PartSplit p p₁ p₂) :
    ToolsSplit (xs ++ p :: ys) (xs ++ [p₁]) (p₂ :: ys)

structure ChoiceSplit (ch ch₁ ch₂ : Choice) : Prop where
  index : ch₁.index = ch.index ∧ ch₂.index = ch.index
  texts : ∀ key, TextSplit (ch.delta.texts.get key) (ch₁.delta.texts.get key)
    (ch₂.delta.texts.get key)
  functionCall : ch₁.delta.functionCall = .null ∧ ch₂.delta.functionCall = ch.delta.functionCall
  toolCalls : ToolsSplit ch.delta.toolCalls ch₁.delta.toolCalls ch₂.delta.toolCalls
  finishReason : ch₁.finishReason = none ∧ ch₂.finishReason = ch.finishReason

/-- A chunk cut in two; the finish reason and the usage stay with the second. -/
structure Splits (c c₁ c₂ : Chunk) : Prop where
  id : c₁.id = c.id ∧ c₂.id = c.id
  model : c₁.model = c.model ∧ c₂.model = c.model
  usage : c₁.usage = none ∧ c₂.usage = c.usage
  choices : ∃ ch ch₁ ch₂, c.choices = [ch] ∧ c₁.choices = [ch₁] ∧ c₂.choices = [ch₂] ∧
    ChoiceSplit ch ch₁ ch₂

/-- Two chunks that speak of different text fields and different tools. -/
structure Apart (c d : Chunk) : Prop where
  id : c.id = d.id
  model : c.model = d.model
  usage : c.usage = none ∧ d.usage = none
  finishes : finishesOf [c] = [] ∧ finishesOf [d] = []
  texts : ∀ key, textsAt key (piecesOf [c]) = [] ∨ textsAt key (piecesOf [d]) = []
  toolCalls : ∀ p ∈ partsOf [c], ∀ q ∈ partsOf [d], p.index ≠ q.index

inductive Step : List Chunk → List Chunk → Prop where
  | split (xs ys : List Chunk) {c c₁ c₂ : Chunk} (h : Splits c c₁ c₂) :
    Step (xs ++ [c] ++ ys) (xs ++ [c₁, c₂] ++ ys)
  | swap (xs ys : List Chunk) {c d : Chunk} (h : Apart c d) :
    Step (xs ++ [c, d] ++ ys) (xs ++ [d, c] ++ ys)

/-! ## The summary of a stream -/

/-- Nothing comes behind the finish reason. -/
def Quiet (cs : List Chunk) : Prop :=
  ∀ before c after, cs = before ++ c :: after → finishesOf before ≠ [] → c.outputs = false

theorem quiet_append {xs ys : List Chunk} : Quiet (xs ++ ys) ↔ Quiet xs ∧ Quiet ys ∧
    (finishesOf xs ≠ [] → ys.any Chunk.outputs = false) := by
  constructor
  · intro h
    have hys : ∀ before c after, ys = before ++ c :: after → finishesOf (xs ++ before) ≠ [] →
        c.outputs = false := fun before c after he hne =>
      h (xs ++ before) c after (by rw [he, List.append_assoc]) hne
    refine ⟨fun before c after he => h before c (after ++ ys) (by rw [he]; simp), ?_, ?_⟩
    · intro before c after he hne
      refine hys before c after he fun hnil => hne ?_
      rw [finishesOf_append, List.append_eq_nil_iff] at hnil
      exact hnil.2
    · intro hne
      rw [List.any_eq_false]
      intro c hc
      obtain ⟨before, after, he⟩ := List.append_of_mem hc
      refine Bool.eq_false_iff.1 (hys before c after he fun hnil => hne ?_)
      rw [finishesOf_append, List.append_eq_nil_iff] at hnil
      exact hnil.1
  · rintro ⟨hxs, hys, hlate⟩ before c after he hne
    rcases List.append_eq_append_iff.1 he with ⟨before', rfl, hrest⟩ | ⟨after', hxs', hrest⟩
    · by_cases hfinish : finishesOf xs = []
      · rw [finishesOf_append, hfinish, List.nil_append] at hne
        exact hys before' c after hrest hne
      · have hall := List.any_eq_false.1 (hlate hfinish) c (by rw [hrest]; simp)
        exact Bool.eq_false_iff.2 hall
    · cases after' with
      | nil =>
        rw [List.append_nil] at hxs'
        rw [List.nil_append] at hrest
        subst hxs'
        have hall := List.any_eq_false.1 (hlate hne) c (by rw [← hrest]; simp)
        exact Bool.eq_false_iff.2 hall
      | cons c' after' =>
        obtain ⟨rfl, -⟩ := List.cons.inj hrest
        exact hxs before c after' hxs' hne

theorem quiet_singleton (c : Chunk) : Quiet [c] := by
  intro before c' after he hne
  cases before with
  | nil => exact absurd rfl hne
  | cons _ before => simp at he

/-- Two streams that agree in all that the checks and the completion read. -/
structure Same (xs ys : List Chunk) : Prop where
  ends : xs.getLast?.map (fun c => (c.id, c.model)) = ys.getLast?.map fun c => (c.id, c.model)
  ids : ∀ a, (∃ c ∈ xs, c.id = a) ↔ ∃ c ∈ ys, c.id = a
  plain : (∀ c ∈ xs, c.Plain) ↔ ∀ c ∈ ys, c.Plain
  finishes : finishesOf xs = finishesOf ys
  outputs : xs.any Chunk.outputs = ys.any Chunk.outputs
  quiet : Quiet xs ↔ Quiet ys
  usage : (usagesOf xs).getLast? = (usagesOf ys).getLast?
  texts : ∀ key, textOf (textsAt key (spoken (piecesOf xs))) =
    textOf (textsAt key (spoken (piecesOf ys)))
  calls : ∀ i, callOf (fragmentsAt i (fragmentsOf xs)) = callOf (fragmentsAt i (fragmentsOf ys))
  callIds : ∀ i a, (∃ f ∈ fragmentsOf xs, f.key = i ∧ f.id = some a) ↔
    ∃ f ∈ fragmentsOf ys, f.key = i ∧ f.id = some a

theorem Same.refl (xs : List Chunk) : Same xs xs := by
  constructor <;> intros <;> rfl

theorem Same.symm {xs ys : List Chunk} (h : Same xs ys) : Same ys xs :=
  ⟨h.ends.symm, fun a => (h.ids a).symm, h.plain.symm, h.finishes.symm, h.outputs.symm,
    h.quiet.symm, h.usage.symm, fun key => (h.texts key).symm, fun i => (h.calls i).symm,
    fun i a => (h.callIds i a).symm⟩

theorem Same.trans {xs ys zs : List Chunk} (h : Same xs ys) (h' : Same ys zs) : Same xs zs :=
  ⟨h.ends.trans h'.ends, fun a => (h.ids a).trans (h'.ids a), h.plain.trans h'.plain,
    h.finishes.trans h'.finishes, h.outputs.trans h'.outputs, h.quiet.trans h'.quiet,
    h.usage.trans h'.usage, fun key => (h.texts key).trans (h'.texts key),
    fun i => (h.calls i).trans (h'.calls i), fun i a => (h.callIds i a).trans (h'.callIds i a)⟩

theorem exists_mem_append {α : Type} {p : α → Prop} {xs ys : List α} :
    (∃ a ∈ xs ++ ys, p a) ↔ (∃ a ∈ xs, p a) ∨ ∃ a ∈ ys, p a := by
  simp only [List.mem_append, or_and_right, exists_or]

theorem spoken_append (xs ys : List (TextKey × String)) :
    spoken (xs ++ ys) = spoken xs ++ spoken ys := List.filter_append ..

/-- Streams that say the same part by part say the same. -/
theorem Same.append {xs xs' ys ys' : List Chunk} (hx : Same xs xs') (hy : Same ys ys') :
    Same (xs ++ ys) (xs' ++ ys') := by
  refine ⟨?_, fun a => ?_, ?_, ?_, ?_, ?_, ?_, ?_, ?_, ?_⟩
  · rw [List.getLast?_append, List.getLast?_append, Option.map_or, Option.map_or, hx.ends, hy.ends]
  · rw [exists_mem_append, exists_mem_append, hx.ids, hy.ids]
  · rw [List.forall_mem_append, List.forall_mem_append, hx.plain, hy.plain]
  · rw [finishesOf_append, finishesOf_append, hx.finishes, hy.finishes]
  · rw [List.any_append, List.any_append, hx.outputs, hy.outputs]
  · rw [quiet_append, quiet_append, hx.quiet, hy.quiet, hx.finishes, hy.outputs]
  · rw [usagesOf_append, usagesOf_append, List.getLast?_append, List.getLast?_append, hx.usage,
      hy.usage]
  · intro key
    rw [piecesOf_append, piecesOf_append, spoken_append, spoken_append, Assembly.textsAt_append,
      Assembly.textsAt_append]
    exact Assembly.textOf_append (hx.texts key) (hy.texts key)
  · intro i
    rw [fragmentsOf_append, fragmentsOf_append, Assembly.fragmentsAt_append,
      Assembly.fragmentsAt_append]
    exact Assembly.callOf_append_congr (hx.calls i) (hy.calls i)
  · intro i a
    rw [fragmentsOf_append, fragmentsOf_append, exists_mem_append, exists_mem_append, hx.callIds,
      hy.callIds]

theorem Same.valid {xs ys : List Chunk} (h : Same xs ys) (hv : Valid xs) : Valid ys := by
  refine ⟨h.plain.1 hv.plain, ?_, ?_, h.finishes ▸ hv.finish, h.quiet.1 hv.quiet⟩
  · intro c hc c' hc'
    obtain ⟨d, hd, hid⟩ := (h.ids c.id).2 ⟨c, hc, rfl⟩
    obtain ⟨d', hd', hid'⟩ := (h.ids c'.id).2 ⟨c', hc', rfl⟩
    exact hid.symm.trans ((hv.oneId d hd d' hd').trans hid')
  · intro f hf f' hf' hkey a b ha hb
    obtain ⟨g, hg, hgkey, hga⟩ := (h.callIds f.key a).2 ⟨f, hf, rfl, ha⟩
    obtain ⟨g', hg', hgkey', hgb⟩ := (h.callIds f'.key b).2 ⟨f', hf', rfl, hb⟩
    exact hv.idsAgree g hg g' hg' (hgkey.trans (hkey.trans hgkey'.symm)) a b hga hgb

theorem Same.assembles {xs ys : List Chunk} {completion : Completion} (h : Same xs ys)
    (ha : Assembles xs completion) : Assembles ys completion := by
  have hends : ∀ {β : Type} (g : String × String → β),
      xs.getLast?.map (fun c => g (c.id, c.model)) = ys.getLast?.map fun c => g (c.id, c.model) := by
    intro β g
    have hmap := congrArg (Option.map g) h.ends
    rwa [Option.map_map, Option.map_map] at hmap
  refine ⟨ha.id.trans (hends Prod.fst), ha.model.trans (hends Prod.snd), ?_, fun key =>
    (ha.texts key).trans (h.texts key), ?_, ha.usage.trans h.usage⟩
  · rw [← h.finishes]
    exact ha.finishReason
  · obtain ⟨calls, hall, htools⟩ := ha.toolCalls
    exact ⟨calls, fun i => (h.calls i).symm.trans (hall i), htools⟩

/-! ## A chunk cut in two -/

theorem TextSplit.truthy {v v₁ v₂ : Value} (h : TextSplit v v₁ v₂) :
    v.truthy = (v₁.truthy || v₂.truthy) := by
  cases h with
  | first => exact (Bool.or_false _).symm
  | second => rfl
  | cut s t =>
    rw [Bool.eq_iff_iff]
    simp only [Value.truthy, Bool.or_eq_true, bne_iff_ne, ne_eq, String.append_eq_empty_iff]
    exact not_and_or

theorem TextSplit.strings {v v₁ v₂ : Value} (h : TextSplit v v₁ v₂) :
    (v.truthy = true → ∃ s, v = .str s) ↔
      (v₁.truthy = true → ∃ s, v₁ = .str s) ∧ (v₂.truthy = true → ∃ s, v₂ = .str s) := by
  cases h with
  | first => exact (and_iff_left fun hnull => (by cases hnull)).symm
  | second => exact (and_iff_right fun hnull => (by cases hnull)).symm
  | cut s t => exact ⟨fun _ => ⟨fun _ => ⟨s, rfl⟩, fun _ => ⟨t, rfl⟩⟩, fun _ _ => ⟨_, rfl⟩⟩

/-- The texts of a field of one choice, without the empty ones. -/
def spokenAt (delta : Delta) (key : TextKey) : List String :=
  ((delta.texts.text? key).toList).filter (· ≠ "")

theorem textsAt_spoken (pieces : List (TextKey × String)) (key : TextKey) :
    textsAt key (spoken pieces) = (textsAt key pieces).filter (· ≠ "") :=
  Assembly.textsAt_filter key (· ≠ "") pieces

theorem spokenAt_eq (delta : Delta) (key : TextKey) :
    textsAt key (spoken delta.texts.pieces) = spokenAt delta key := by
  rw [textsAt_spoken, textsAt_pieces, spokenAt]

theorem textOf_split {delta delta₁ delta₂ : Delta} {key : TextKey}
    (h : TextSplit (delta.texts.get key) (delta₁.texts.get key) (delta₂.texts.get key)) :
    textOf (spokenAt delta key) = textOf (spokenAt delta₁ key ++ spokenAt delta₂ key) := by
  unfold spokenAt DeltaTexts.text?
  generalize delta.texts.get key = v at h
  generalize delta₁.texts.get key = v₁ at h
  generalize delta₂.texts.get key = v₂ at h
  cases h with
  | first v => exact congrArg textOf (List.append_nil _).symm
  | second v => rfl
  | cut s t =>
    have hjoin : ∀ x : String, String.join [x] = x := fun x => by
      rw [String.join_cons, String.join_nil, String.append_empty]
    by_cases hs : s = "" <;> by_cases ht : t = "" <;>
      simp [textOf, hs, ht, hjoin, String.join_cons]

theorem ToolsSplit.nonempty {ps ps₁ ps₂ : List Part} (h : ToolsSplit ps ps₁ ps₂) :
    (!ps.isEmpty) = (!ps₁.isEmpty || !ps₂.isEmpty) := by
  cases h with
  | between => cases ps₁ <;> cases ps₂ <;> rfl
  | within xs ys hp => cases xs <;> rfl

theorem ToolsSplit.types {ps ps₁ ps₂ : List Part} (h : ToolsSplit ps ps₁ ps₂) :
    (∀ part ∈ ps, part.type.getD "function" = "function") ↔
      (∀ part ∈ ps₁, part.type.getD "function" = "function") ∧
        ∀ part ∈ ps₂, part.type.getD "function" = "function" := by
  cases h with
  | between xs ys => exact List.forall_mem_append
  | within xs ys hp =>
    rename_i p p₁ p₂
    have hsecond : p.type.getD "function" = "function" → p₂.type.getD "function" = "function" := by
      rcases hp.type.2 with hnone | hsame
      · rw [hnone]
        exact fun _ => rfl
      · rw [hsame]
        exact id
    rw [List.forall_mem_append, List.forall_mem_cons, List.forall_mem_append,
      List.forall_mem_singleton, List.forall_mem_cons, hp.type.1]
    constructor
    · rintro ⟨hxs, hone, hys⟩
      exact ⟨⟨hxs, hone⟩, hsecond hone, hys⟩
    · rintro ⟨⟨hxs, hone⟩, -, hys⟩
      exact ⟨hxs, hone, hys⟩

theorem PartSplit.call_eq {p p₁ p₂ : Part} (h : PartSplit p p₁ p₂) :
    callOf [p.fragment] = callOf [p₁.fragment, p₂.fragment] := by
  have hid : p₁.fragment.id = p.fragment.id := congrArg given h.id.1
  have hid₂ : p₂.fragment.id = none ∨ p₂.fragment.id = p.fragment.id :=
    h.id.2.imp (congrArg given) (congrArg given)
  rw [Assembly.callOf_eq_iff]
  refine ⟨by simp, ?_, ?_, ?_⟩
  · rcases hid₂ with hnone | hsame
    · cases hp : p.fragment.id <;> simp [hid, hnone, hp]
    · cases hp : p.fragment.id <;> simp [hid, hsame, hp]
  · simpa [String.join_cons, Part.fragment] using h.name
  · simpa [String.join_cons, Part.fragment] using h.arguments

theorem ToolsSplit.call_eq {ps ps₁ ps₂ : List Part} (h : ToolsSplit ps ps₁ ps₂) (i : Int) :
    callOf (fragmentsAt i (ps.map Part.fragment)) =
      callOf (fragmentsAt i (ps₁.map Part.fragment ++ ps₂.map Part.fragment)) := by
  cases h with
  | between xs ys => rw [List.map_append]
  | within xs ys hp =>
    rename_i p p₁ p₂
    have hparts : callOf (fragmentsAt i [p.fragment]) =
        callOf (fragmentsAt i [p₁.fragment, p₂.fragment]) := by
      have hsplit : [p₁.fragment, p₂.fragment] = [p₁.fragment] ++ [p₂.fragment] := rfl
      have hkey : p₁.fragment.key = p.fragment.key ∧ p₂.fragment.key = p.fragment.key := hp.index
      rw [hsplit, Assembly.fragmentsAt_append, Assembly.fragmentsAt_singleton,
        Assembly.fragmentsAt_singleton, Assembly.fragmentsAt_singleton, hkey.1, hkey.2]
      by_cases hi : p.fragment.key = i
      · rw [if_pos hi, if_pos hi, if_pos hi]
        exact hp.call_eq
      · rw [if_neg hi, if_neg hi, if_neg hi]
        rfl
    have hleft : (xs ++ p :: ys).map Part.fragment =
        xs.map Part.fragment ++ ([p.fragment] ++ ys.map Part.fragment) := by simp
    have hright : (xs ++ [p₁]).map Part.fragment ++ (p₂ :: ys).map Part.fragment =
        xs.map Part.fragment ++ ([p₁.fragment, p₂.fragment] ++ ys.map Part.fragment) := by simp
    rw [hleft, hright]
    simp only [Assembly.fragmentsAt_append]
    exact Assembly.callOf_append_congr rfl (Assembly.callOf_append_congr hparts rfl)

theorem ToolsSplit.callIds {ps ps₁ ps₂ : List Part} (h : ToolsSplit ps ps₁ ps₂) (i : Int)
    (a : String) :
    (∃ f ∈ ps.map Part.fragment, f.key = i ∧ f.id = some a) ↔
      ∃ f ∈ ps₁.map Part.fragment ++ ps₂.map Part.fragment, f.key = i ∧ f.id = some a := by
  cases h with
  | between xs ys => rw [List.map_append]
  | within xs ys hp =>
    rename_i p p₁ p₂
    have hone : p₁.fragment.key = i ∧ p₁.fragment.id = some a ↔
        p.fragment.key = i ∧ p.fragment.id = some a :=
      iff_of_eq (by rw [Part.fragment, Part.fragment, hp.index.1, hp.id.1])
    have htwo : p₂.fragment.key = i ∧ p₂.fragment.id = some a →
        p.fragment.key = i ∧ p.fragment.id = some a := by
      rintro ⟨hkey, hid⟩
      refine ⟨hp.index.2.symm.trans hkey, ?_⟩
      rcases hp.id.2 with hnone | hsame
      · rw [Part.fragment, hnone] at hid
        cases hid
      · exact (congrArg given hsame).symm.trans hid
    simp only [List.map_append, List.map_cons, List.map_nil, exists_mem_append,
      List.exists_mem_cons_iff, List.not_mem_nil, false_and, exists_false, or_false, hone]
    constructor
    · rintro (hin | hin | hin)
      · exact Or.inl (Or.inl hin)
      · exact Or.inl (Or.inr hin)
      · exact Or.inr (Or.inr hin)
    · rintro ((hin | hin) | hin | hin)
      · exact Or.inl hin
      · exact Or.inr (Or.inl hin)
      · exact Or.inr (Or.inl (htwo hin))
      · exact Or.inr (Or.inr hin)

theorem plain_single {c : Chunk} {ch : Choice} (hone : c.choices = [ch]) :
    c.Plain ↔ ch.index = 0 ∧
      (∀ key, (ch.delta.texts.get key).truthy = true → ∃ s, ch.delta.texts.get key = .str s) ∧
      ch.delta.functionCall.truthy = false ∧
      ∀ part ∈ ch.delta.toolCalls, part.type.getD "function" = "function" := by
  have hmem : ∀ {p : Choice → Prop}, (∀ ch' ∈ c.choices, p ch') ↔ p ch := by
    rw [hone]
    exact List.forall_mem_singleton
  constructor
  · rintro ⟨hsingle, htexts, hlegacy, htypes⟩
    exact ⟨(hmem.1 hsingle).1, hmem.1 htexts, hmem.1 hlegacy, hmem.1 htypes⟩
  · rintro ⟨hindex, htexts, hlegacy, htypes⟩
    exact ⟨hmem.2 ⟨hindex, by rw [hone, List.length_singleton]⟩, hmem.2 htexts, hmem.2 hlegacy,
      hmem.2 htypes⟩

theorem ChoiceSplit.plain {ch ch₁ ch₂ : Choice} {c c₁ c₂ : Chunk} (h : ChoiceSplit ch ch₁ ch₂)
    (hc : c.choices = [ch]) (hc₁ : c₁.choices = [ch₁]) (hc₂ : c₂.choices = [ch₂]) :
    c.Plain ↔ c₁.Plain ∧ c₂.Plain := by
  rw [plain_single hc, plain_single hc₁, plain_single hc₂, h.index.1, h.index.2, h.functionCall.1,
    h.functionCall.2, h.toolCalls.types]
  have htexts := fun key => (h.texts key).strings
  constructor
  · rintro ⟨hindex, hall, hlegacy, htypes₁, htypes₂⟩
    exact ⟨⟨hindex, fun key => ((htexts key).1 (hall key)).1, rfl, htypes₁⟩, hindex,
      fun key => ((htexts key).1 (hall key)).2, hlegacy, htypes₂⟩
  · rintro ⟨⟨hindex, hall₁, -, htypes₁⟩, -, hall₂, hlegacy, htypes₂⟩
    exact ⟨hindex, fun key => (htexts key).2 ⟨hall₁ key, hall₂ key⟩, hlegacy, htypes₁, htypes₂⟩

theorem ChoiceSplit.outputs {ch ch₁ ch₂ : Choice} (h : ChoiceSplit ch ch₁ ch₂) :
    ch.delta.outputs = (ch₁.delta.outputs || ch₂.delta.outputs) := by
  unfold Delta.outputs
  simp only [List.any_cons, List.any_nil, Bool.or_false, h.toolCalls.nonempty,
    (h.texts _).truthy]
  ac_rfl

theorem same_of_splits {c c₁ c₂ : Chunk} (h : Splits c c₁ c₂) : Same [c] [c₁, c₂] := by
  obtain ⟨ch, ch₁, ch₂, hc, hc₁, hc₂, hch⟩ := h.choices
  have hold : choicesOf [c] = [ch] := (choicesOf_singleton c).trans hc
  have hnew : choicesOf [c₁, c₂] = [ch₁, ch₂] := by
    rw [choicesOf, List.flatMap_cons, hc₁, List.flatMap_singleton, hc₂]
    rfl
  have hquiet : Quiet [c₁, c₂] := by
    have hsplit : [c₁, c₂] = [c₁] ++ [c₂] := rfl
    rw [hsplit, quiet_append]
    refine ⟨quiet_singleton c₁, quiet_singleton c₂, fun hne => absurd ?_ hne⟩
    rw [finishesOf, choicesOf_singleton, hc₁, List.filterMap_cons_none hch.finishReason.1,
      List.filterMap_nil]
  refine ⟨?_, ?_, ?_, ?_, ?_, iff_of_true (quiet_singleton c) hquiet, ?_, ?_, ?_, ?_⟩
  · simp [h.id.2, h.model.2]
  · simp [h.id]
  · rw [List.forall_mem_singleton, List.forall_mem_cons, List.forall_mem_singleton]
    exact hch.plain hc hc₁ hc₂
  · rw [finishesOf, finishesOf, hold, hnew, List.filterMap_cons_none hch.finishReason.1,
      List.filterMap_cons, List.filterMap_cons, hch.finishReason.2]
  · simp only [List.any_cons, List.any_nil, Bool.or_false, Chunk.outputs, hc, hc₁, hc₂]
    exact hch.outputs
  · rw [usagesOf, usagesOf, List.filterMap_cons_none h.usage.1, List.filterMap_cons,
      List.filterMap_cons, h.usage.2]
  · intro key
    rw [piecesOf, piecesOf, hold, hnew]
    simp only [List.flatMap_cons, List.flatMap_nil, List.append_nil, spoken_append,
      Assembly.textsAt_append, spokenAt_eq]
    exact textOf_split (hch.texts key)
  · intro i
    rw [fragmentsOf, fragmentsOf, partsOf, partsOf, hold, hnew]
    simp only [List.flatMap_cons, List.flatMap_nil, List.append_nil, List.map_append]
    exact hch.toolCalls.call_eq i
  · intro i a
    rw [fragmentsOf, fragmentsOf, partsOf, partsOf, hold, hnew]
    simp only [List.flatMap_cons, List.flatMap_nil, List.append_nil, List.map_append]
    exact hch.toolCalls.callIds i a

/-! ## Two chunks swapped -/

theorem append_comm_of_nil {α : Type} {xs ys : List α} (h : xs = [] ∨ ys = []) :
    xs ++ ys = ys ++ xs := by
  rcases h with rfl | rfl
  · exact (List.append_nil ys).symm
  · exact List.append_nil xs

theorem same_of_apart {c d : Chunk} (h : Apart c d) : Same [c, d] [d, c] := by
  have hcd : [c, d] = [c] ++ [d] := rfl
  have hdc : [d, c] = [d] ++ [c] := rfl
  have hfinishes : finishesOf [c, d] = [] ∧ finishesOf [d, c] = [] := by
    rw [hcd, hdc, finishesOf_append, finishesOf_append, h.finishes.1, h.finishes.2]
    exact ⟨rfl, rfl⟩
  have hfragments : ∀ i, fragmentsAt i (fragmentsOf [c]) = [] ∨
      fragmentsAt i (fragmentsOf [d]) = [] := by
    intro i
    by_contra hboth
    rw [not_or] at hboth
    obtain ⟨f, hf⟩ := List.exists_mem_of_ne_nil _ hboth.1
    obtain ⟨g, hg⟩ := List.exists_mem_of_ne_nil _ hboth.2
    rw [fragmentsAt, List.mem_filter, decide_eq_true_eq, fragmentsOf, List.mem_map] at hf hg
    obtain ⟨⟨p, hp, rfl⟩, hpi⟩ := hf
    obtain ⟨⟨q, hq, rfl⟩, hqi⟩ := hg
    exact h.toolCalls p hp q hq (hpi.trans hqi.symm)
  refine ⟨?_, ?_, ?_, hfinishes.1.trans hfinishes.2.symm, ?_, ?_, ?_, ?_, ?_, ?_⟩
  · simp [h.id, h.model]
  · simp [h.id]
  · rw [hcd, hdc, List.forall_mem_append, List.forall_mem_append]
    exact And.comm
  · rw [hcd, hdc, List.any_append, List.any_append, Bool.or_comm]
  · rw [hcd, hdc, quiet_append, quiet_append]
    exact iff_of_true ⟨quiet_singleton c, quiet_singleton d, fun hne => absurd h.finishes.1 hne⟩
      ⟨quiet_singleton d, quiet_singleton c, fun hne => absurd h.finishes.2 hne⟩
  · simp [usagesOf, h.usage]
  · intro key
    rw [hcd, hdc, piecesOf_append, piecesOf_append, textsAt_spoken, textsAt_spoken,
      Assembly.textsAt_append, Assembly.textsAt_append, append_comm_of_nil (h.texts key)]
  · intro i
    rw [hcd, hdc, fragmentsOf_append, fragmentsOf_append, Assembly.fragmentsAt_append,
      Assembly.fragmentsAt_append, append_comm_of_nil (hfragments i)]
  · intro i a
    rw [hcd, hdc, fragmentsOf_append, fragmentsOf_append, exists_mem_append, exists_mem_append]
    exact Or.comm

/-- **A step keeps the summary.** -/
theorem same_of_step {cs cs' : List Chunk} (h : Step cs cs') : Same cs cs' := by
  cases h with
  | split xs ys h => exact ((Same.refl xs).append (same_of_splits h)).append (Same.refl ys)
  | swap xs ys h => exact ((Same.refl xs).append (same_of_apart h)).append (Same.refl ys)

/-- So do any number of steps, back and forth. -/
theorem same_of_eqvGen {cs cs' : List Chunk} (h : Relation.EqvGen Step cs cs') : Same cs cs' := by
  induction h with
  | rel cs cs' hstep => exact same_of_step hstep
  | refl cs => exact Same.refl cs
  | symm cs cs' _ ih => exact ih.symm
  | trans cs cs' cs'' _ _ ih ih' => exact ih.trans ih'

end ReedCode.ChatStream
