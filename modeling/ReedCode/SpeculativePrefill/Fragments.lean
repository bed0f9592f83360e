import ReedCode.SpeculativePrefill.Accumulator
import Mathlib.Data.List.Induction

/-!
# Fragments of a turn

What a sequence of calls delivers, field by field, and that the accumulator holds it as long as
nothing has gone wrong.

* `Clean` — nothing in the calls has to be rejected;
* `run_spec` — after clean calls the accumulator holds the fragments, after others it has failed.
-/

set_option autoImplicit false

namespace ReedCode.SpeculativePrefill

/-! ## What the calls deliver -/

/-- The frames that have a choice. -/
def frames (calls : List Call) : List Response :=
  calls.filterMap fun
    | .observe response => if response.choices.isEmpty then none else some response
    | .reject => none

def choices (calls : List Call) : List Choice := (frames calls).flatMap (·.choices)

def chunks (cs : List Choice) : List ToolChunk := cs.flatMap (·.toolCalls.getD [])

/-- The tool chunks of one index, in order. -/
def chunksAt (index : Nat) (chunks : List ToolChunk) : List Value :=
  (chunks.filter (·.index = index)).map (·.incoming)

def givenIds (incomings : List Value) : List Value := incomings.filterMap (·.given? "id")

/-- The given types, behind the one a tool starts with. -/
def givenTypes (incomings : List Value) : List Value :=
  .str "function" :: incomings.filterMap (·.given? "type")

def givenNames (incomings : List Value) : List Value :=
  incomings.filterMap fun incoming => (incoming.given? "function").bind (·.given? "name")

def argumentFragments (incomings : List Value) : List String :=
  incomings.filterMap fun incoming =>
    (incoming.given? "function").bind fun function =>
      (function.get? "arguments").bind Value.asStr?

/-- The values of a text field. -/
def textFragments (key : String) (cs : List Choice) : List Value :=
  cs.filterMap (·.delta.given? key)

/-- The concatenation of a text field; `none` if it is never given. -/
def joined (key : String) (cs : List Choice) : Option String :=
  if (textFragments key cs).isEmpty then none
  else some (String.join ((textFragments key cs).filterMap Value.asStr?))

/-- All values are the same. -/
def AllEqual (xs : List Value) : Prop := ∀ a ∈ xs, ∀ b ∈ xs, a = b

instance (xs : List Value) : Decidable (AllEqual xs) :=
  inferInstanceAs (Decidable (∀ a ∈ xs, ∀ b ∈ xs, a = b))

/-- The chunks of one index give no field in two ways. -/
structure Agreeing (incomings : List Value) : Prop where
  ids : AllEqual (givenIds incomings)
  types : AllEqual (givenTypes incomings)
  names : AllEqual (givenNames incomings)

/-- A delta without a refusal, a function call and a foreign role. -/
structure Plain (delta : Value) : Prop where
  refusal : delta.given? "refusal" = none
  functionCall : delta.given? "function_call" = none
  role : ∀ role, delta.given? "role" = some role → role = .str "assistant"

/-- The text fields of a delta are strings where they are given. -/
def PlainText (delta : Value) : Prop :=
  ∀ key ∈ ["content", "reasoning_content"], ∀ v, delta.given? key = some v → ∃ text, v = .str text

theorem plainText_iff {delta : Value} : PlainText delta ↔
    ∀ key ∈ ["content", "reasoning_content"], (delta.given? key).all Value.isStr = true := by
  unfold PlainText
  refine forall_congr' fun key => forall_congr' fun _ => ?_
  cases delta.given? key with
  | none => simp
  | some v => cases v <;> simp [Value.isStr]

instance (delta : Value) : Decidable (PlainText delta) := decidable_of_iff' _ plainText_iff

/-- **Nothing in the calls has to be rejected.** -/
structure Clean (calls : List Call) : Prop where
  notRejected : Call.reject ∉ calls
  single : ∀ frame ∈ frames calls, ∃ choice, frame.choices = [choice] ∧ choice.index = 0
  plain : ∀ choice ∈ choices calls, Plain choice.delta
  texts : ∀ choice ∈ choices calls, PlainText choice.delta
  earlier : ∀ choice ∈ (choices calls).dropLast, choice.finishReason = none
  reason : ∀ choice, (choices calls).getLast? = some choice →
    ∀ r, choice.finishReason = some r → r = .str "tool_calls"
  agreeing : ∀ index, Agreeing (chunksAt index (chunks (choices calls)))

/-! ## One tool -/

theorem AllEqual.of_append {xs ys : List Value} (h : AllEqual (xs ++ ys)) : AllEqual xs :=
  fun a ha b hb => h a (List.mem_append_left _ ha) b (List.mem_append_left _ hb)

theorem filterMap_concat {α β : Type} (f : α → Option β) (xs : List α) (a : α) :
    (xs ++ [a]).filterMap f = xs.filterMap f ++ (f a).toList := by
  rw [List.filterMap_append]
  cases h : f a <;> simp [h]

/-- Giving a field once more keeps the first value, or conflicts with it. -/
theorem setOnce_spec {xs : List Value} (h : AllEqual xs) (given : Option Value) :
    (∀ r, setOnce xs.head? given = some r →
      AllEqual (xs ++ given.toList) ∧ r = (xs ++ given.toList).head?) ∧
    (setOnce xs.head? given = none → ¬ AllEqual (xs ++ given.toList)) := by
  cases given with
  | none => simpa [setOnce] using h
  | some value =>
    cases xs with
    | nil =>
      simp only [setOnce, List.head?_nil, Option.any_none, Bool.false_eq_true, if_false,
        Option.some.injEq, Option.toList_some, List.nil_append, reduceCtorEq, false_implies, and_true]
      rintro r rfl
      exact ⟨by simp [AllEqual], rfl⟩
    | cons x xs =>
      have hiff : AllEqual (x :: xs ++ [value]) ↔ x = value := by
        constructor
        · intro hall
          exact hall x (by simp) value (by simp)
        · rintro rfl a ha b hb
          have hx : ∀ c ∈ x :: xs ++ [x], c = x := fun c hc => by
            rcases List.mem_append.1 hc with hc | hc
            · exact h c hc x List.mem_cons_self
            · exact List.mem_singleton.1 hc
          rw [hx a ha, hx b hb]
      simp only [Option.toList_some, hiff]
      by_cases hv : x = value
      · simp [setOnce, hv]
      · simp [setOnce, hv]

/-- The tool that the chunks of one index make. -/
structure Tool.Of (tool : Tool) (incomings : List Value) : Prop where
  id : tool.id = (givenIds incomings).head?
  type : tool.type = .str "function"
  name : tool.name = (givenNames incomings).head?
  arguments : tool.arguments = String.join (argumentFragments incomings)

theorem Tool.of_nil : Tool.new.Of [] := ⟨rfl, rfl, rfl, rfl⟩

theorem agreeing_nil : Agreeing [] :=
  ⟨by simp [AllEqual, givenIds], by simp [AllEqual, givenTypes], by simp [AllEqual, givenNames]⟩

theorem Agreeing.of_append {xs ys : List Value} (h : Agreeing (xs ++ ys)) : Agreeing xs := by
  obtain ⟨hids, htypes, hnames⟩ := h
  rw [givenIds, List.filterMap_append] at hids
  rw [givenTypes, List.filterMap_append, ← List.cons_append] at htypes
  rw [givenNames, List.filterMap_append] at hnames
  exact ⟨hids.of_append, htypes.of_append, hnames.of_append⟩

theorem join_concat (fragments : List String) (fragment : String) :
    String.join (fragments ++ [fragment]) = String.join fragments ++ fragment := by
  simp [String.join]

theorem givenIds_concat (incomings : List Value) (incoming : Value) :
    givenIds (incomings ++ [incoming]) = givenIds incomings ++ (incoming.given? "id").toList :=
  filterMap_concat ..

theorem givenTypes_concat (incomings : List Value) (incoming : Value) :
    givenTypes (incomings ++ [incoming]) =
      givenTypes incomings ++ (incoming.given? "type").toList := by
  rw [givenTypes, filterMap_concat, givenTypes, List.cons_append]

theorem givenNames_concat (incomings : List Value) (incoming : Value) :
    givenNames (incomings ++ [incoming]) = givenNames incomings ++
      ((incoming.given? "function").bind (·.given? "name")).toList :=
  filterMap_concat ..

theorem argumentFragments_concat (incomings : List Value) (incoming : Value) :
    argumentFragments (incomings ++ [incoming]) = argumentFragments incomings ++
      ((incoming.given? "function").bind fun function =>
        (function.get? "arguments").bind Value.asStr?).toList :=
  filterMap_concat ..

theorem Tool.takeId_spec {tool : Tool} {incomings : List Value}
    (hid : tool.id = (givenIds incomings).head?) (hagree : AllEqual (givenIds incomings))
    (incoming : Value) :
    (∀ t, tool.takeId incoming = .ok t → AllEqual (givenIds (incomings ++ [incoming])) ∧
      t = { tool with id := (givenIds (incomings ++ [incoming])).head? }) ∧
    ∀ t, tool.takeId incoming = .error t → ¬ AllEqual (givenIds (incomings ++ [incoming])) := by
  obtain ⟨hok, hno⟩ := setOnce_spec hagree (incoming.given? "id")
  rw [← hid, ← givenIds_concat] at hok hno
  unfold Tool.takeId
  split
  · rename_i h
    exact ⟨fun t ht => (by cases ht), fun _ _ => hno h⟩
  · rename_i id h
    obtain ⟨hall, rfl⟩ := hok id h
    exact ⟨fun t ht => by cases ht; exact ⟨hall, rfl⟩, fun t ht => (by cases ht)⟩

theorem Tool.takeType_spec {tool : Tool} {incomings : List Value}
    (htype : tool.type = .str "function") (hagree : AllEqual (givenTypes incomings))
    (incoming : Value) :
    (∀ t, tool.takeType incoming = .ok t → AllEqual (givenTypes (incomings ++ [incoming])) ∧
      t = tool) ∧
    ∀ t, tool.takeType incoming = .error t → ¬ AllEqual (givenTypes (incomings ++ [incoming])) := by
  obtain ⟨hok, hno⟩ := setOnce_spec hagree (incoming.given? "type")
  rw [show (givenTypes incomings).head? = some tool.type by rw [htype]; rfl,
    ← givenTypes_concat] at hok hno
  unfold Tool.takeType
  split
  · rename_i h
    exact ⟨fun t ht => (by cases ht), fun _ _ => hno h⟩
  · rename_i type h
    obtain ⟨hall, rfl⟩ := hok type h
    refine ⟨fun t ht => ?_, fun t ht => (by cases ht)⟩
    cases ht
    refine ⟨hall, ?_⟩
    cases tool
    simp only [givenTypes, List.head?_cons, Option.getD_some, Tool.mk.injEq,
      and_true, true_and]
    exact htype.symm

theorem Tool.takeFunction_spec {tool : Tool} {incomings : List Value}
    (hname : tool.name = (givenNames incomings).head?) (hagree : AllEqual (givenNames incomings))
    (hargs : tool.arguments = String.join (argumentFragments incomings)) (incoming : Value) :
    (∀ t, tool.takeFunction incoming = .ok t → AllEqual (givenNames (incomings ++ [incoming])) ∧
      t = { tool with
        name := (givenNames (incomings ++ [incoming])).head?
        arguments := String.join (argumentFragments (incomings ++ [incoming])) }) ∧
    ∀ t, tool.takeFunction incoming = .error t →
      ¬ AllEqual (givenNames (incomings ++ [incoming])) := by
  obtain ⟨hok, hno⟩ :=
    setOnce_spec hagree ((incoming.given? "function").bind (·.given? "name"))
  rw [← hname, ← givenNames_concat] at hok hno
  rw [argumentFragments_concat]
  unfold Tool.takeFunction
  cases hfunction : incoming.given? "function" with
  | none =>
    rw [hfunction] at hok
    obtain ⟨hall, hhead⟩ := hok tool.name rfl
    refine ⟨fun t ht => ?_, fun t ht => (by cases ht)⟩
    cases ht
    refine ⟨hall, ?_⟩
    rw [← hhead, Option.bind_none, Option.toList_none, List.append_nil, ← hargs]
  | some function =>
    rw [hfunction, Option.bind_some] at hok hno
    rw [Option.bind_some]
    simp only
    split
    · rename_i h
      exact ⟨fun t ht => (by cases ht), fun _ _ => hno h⟩
    · rename_i name h
      obtain ⟨hall, rfl⟩ := hok name h
      split
      · rename_i h'
        refine ⟨fun t ht => ?_, fun t ht => (by cases ht)⟩
        cases ht
        rw [h', Option.toList_none, List.append_nil, ← hargs]
        exact ⟨hall, rfl⟩
      · rename_i args h'
        refine ⟨fun t ht => ?_, fun t ht => (by cases ht)⟩
        cases ht
        rw [h', Option.toList_some, join_concat, ← hargs]
        exact ⟨hall, rfl⟩

/-- One more chunk of a tool: it agrees and is added, or it conflicts. -/
theorem Tool.take_spec {tool : Tool} {incomings : List Value} (hof : tool.Of incomings)
    (hagree : Agreeing incomings) (incoming : Value) :
    (∀ t, tool.take incoming = .ok t →
      Agreeing (incomings ++ [incoming]) ∧ t.Of (incomings ++ [incoming])) ∧
    (∀ t, tool.take incoming = .error t → ¬ Agreeing (incomings ++ [incoming])) := by
  obtain ⟨hid, hid'⟩ := Tool.takeId_spec hof.id hagree.ids incoming
  -- the later steps see the tool with its id
  obtain ⟨tool₁, htool₁⟩ : ∃ t : Tool, t =
    { tool with id := (givenIds (incomings ++ [incoming])).head? } := ⟨_, rfl⟩
  have htype₁ : tool₁.type = .str "function" := by rw [htool₁]; exact hof.type
  have hname₁ : tool₁.name = (givenNames incomings).head? := by rw [htool₁]; exact hof.name
  have hargs₁ : tool₁.arguments = String.join (argumentFragments incomings) := by
    rw [htool₁]; exact hof.arguments
  obtain ⟨htype, htype'⟩ := Tool.takeType_spec htype₁ hagree.types incoming
  obtain ⟨hname, hname'⟩ := Tool.takeFunction_spec hname₁ hagree.names hargs₁ incoming
  unfold Tool.take
  constructor
  · intro t h
    obtain ⟨t₁, h₁, h⟩ := Except.bind_eq_ok_iff.1 h
    obtain ⟨t₂, h₂, h₃⟩ := Except.bind_eq_ok_iff.1 h
    obtain ⟨hids, rfl⟩ := hid t₁ h₁
    rw [← htool₁] at h₂
    obtain ⟨htypes, rfl⟩ := htype t₂ h₂
    obtain ⟨hnames, rfl⟩ := hname t h₃
    exact ⟨⟨hids, htypes, hnames⟩, by rw [htool₁], htype₁, rfl, rfl⟩
  · intro t h hagree'
    rcases Except.bind_eq_error_iff.1 h with h₁ | ⟨t₁, h₁, h⟩
    · exact hid' t h₁ hagree'.ids
    · obtain ⟨-, rfl⟩ := hid t₁ h₁
      rw [← htool₁] at h
      rcases Except.bind_eq_error_iff.1 h with h₂ | ⟨t₂, h₂, h₃⟩
      · exact htype' t h₂ hagree'.types
      · obtain ⟨-, rfl⟩ := htype t₂ h₂
        exact hname' t h₃ hagree'.names

/-! ## All tools -/

/-- The tools hold the chunks, each index its own. -/
structure ToolsOf (tools : FinMap Nat Tool) (cs : List ToolChunk) : Prop where
  present : ∀ index, (tools.get? index).isSome ↔ index ∈ cs.map (·.index)
  holds : ∀ index, ((tools.get? index).getD .new).Of (chunksAt index cs)

theorem chunksAt_concat (index : Nat) (cs : List ToolChunk) (chunk : ToolChunk) :
    chunksAt index (cs ++ [chunk]) =
      chunksAt index cs ++ if chunk.index = index then [chunk.incoming] else [] := by
  rw [chunksAt, List.filter_append, List.map_append, chunksAt]
  by_cases h : chunk.index = index <;> simp [h]

theorem toolsOf_nil : ToolsOf .empty [] := ⟨by simp, fun _ => Tool.of_nil⟩

theorem ToolsOf.insert {tools : FinMap Nat Tool} {cs : List ToolChunk} (h : ToolsOf tools cs)
    {chunk : ToolChunk} {tool : Tool}
    (htool : tool.Of (chunksAt chunk.index cs ++ [chunk.incoming])) :
    ToolsOf (tools.insert chunk.index tool) (cs ++ [chunk]) where
  present index := by
    rw [FinMap.get?_insert, List.map_append, List.mem_append, ← h.present index]
    by_cases hindex : chunk.index = index
    · simp [hindex]
    · simp [hindex, Ne.symm hindex]
  holds index := by
    rw [FinMap.get?_insert, chunksAt_concat]
    by_cases hindex : chunk.index = index
    · subst hindex
      simpa using htool
    · simpa [hindex] using h.holds index

/-- More tool chunks agree and are added, or two of them conflict. -/
theorem CompletedToolTurn.takeChunks_spec : ∀ {more cs : List ToolChunk} {s : CompletedToolTurn},
    ToolsOf s.tools cs → (∀ index, Agreeing (chunksAt index cs)) →
      (∀ s', s.takeChunks more = .ok s' → (∀ index, Agreeing (chunksAt index (cs ++ more))) ∧
        ToolsOf s'.tools (cs ++ more) ∧ s' = { s with tools := s'.tools }) ∧
      ∀ s', s.takeChunks more = .error s' → s'.failed = true ∧
        ¬ ∀ index, Agreeing (chunksAt index (cs ++ more))
  | [], cs, s, hs, hagree => by
    rw [List.append_nil]
    refine ⟨fun s' h => ?_, fun s' h => by cases h⟩
    cases h
    exact ⟨hagree, hs, rfl⟩
  | chunk :: more, cs, s, hs, hagree => by
    obtain ⟨hok, hno⟩ :=
      Tool.take_spec (hs.holds chunk.index) (hagree chunk.index) chunk.incoming
    have hassoc : cs ++ chunk :: more = (cs ++ [chunk]) ++ more := by simp
    have hself : chunksAt chunk.index (cs ++ [chunk]) =
        chunksAt chunk.index cs ++ [chunk.incoming] := by rw [chunksAt_concat, if_pos rfl]
    unfold CompletedToolTurn.takeChunks
    cases htake : ((s.tools.get? chunk.index).getD .new).take chunk.incoming with
    | error tool =>
      refine ⟨fun s' h => (by cases h), fun s' h => ?_⟩
      cases h
      refine ⟨rfl, fun hall => hno tool htake ?_⟩
      have hmore := hall chunk.index
      rw [hassoc, chunksAt, List.filter_append, List.map_append] at hmore
      rw [← hself]
      exact hmore.of_append
    | ok tool =>
      obtain ⟨hnew, htool⟩ := hok tool htake
      have hagree' : ∀ index, Agreeing (chunksAt index (cs ++ [chunk])) := fun index => by
        rw [chunksAt_concat]
        by_cases hindex : chunk.index = index
        · subst hindex
          simpa using hnew
        · simpa [hindex] using hagree index
      rw [hassoc]
      exact takeChunks_spec (s := { s with tools := s.tools.insert chunk.index tool })
        (hs.insert htool) hagree'

/-! ## Text -/

theorem textFragments_concat (key : String) (cs : List Choice) (choice : Choice) :
    textFragments key (cs ++ [choice]) =
      textFragments key cs ++ (choice.delta.given? key).toList :=
  filterMap_concat ..

theorem joined_concat_none {key : String} (cs : List Choice) {choice : Choice}
    (h : choice.delta.given? key = none) : joined key (cs ++ [choice]) = joined key cs := by
  rw [joined, textFragments_concat, h, Option.toList_none, List.append_nil, joined]

theorem joined_concat_some {key text : String} (cs : List Choice) {choice : Choice}
    (h : choice.delta.given? key = some (.str text)) :
    joined key (cs ++ [choice]) = some ((joined key cs).getD "" ++ text) := by
  have hjoin : String.join ((textFragments key (cs ++ [choice])).filterMap Value.asStr?) =
      String.join ((textFragments key cs).filterMap Value.asStr?) ++ text := by
    rw [textFragments_concat, h, Option.toList_some, filterMap_concat, Value.asStr?,
      Option.toList_some, join_concat]
  rw [joined, hjoin, if_neg (by simp [textFragments_concat, h]), joined]
  split
  · rename_i hempty
    rw [List.isEmpty_iff.1 hempty]
    rfl
  · rfl

/-- One text field of a delta: it is pushed, or it is no string. -/
theorem pushText_spec (key : String) (cs : List Choice) (choice : Choice) :
    (∀ r, pushText choice.delta key (joined key cs) = some r →
      (∀ v, choice.delta.given? key = some v → ∃ text, v = .str text) ∧
        r = joined key (cs ++ [choice])) ∧
    (pushText choice.delta key (joined key cs) = none →
      ¬ ∀ v, choice.delta.given? key = some v → ∃ text, v = .str text) := by
  unfold pushText
  cases hgiven : choice.delta.given? key with
  | none =>
    refine ⟨fun r hr => ⟨nofun, ?_⟩, nofun⟩
    rw [joined_concat_none cs hgiven]
    exact (Option.some.inj hr).symm
  | some value =>
    cases htext : value.asStr? with
    | none =>
      refine ⟨fun r hr => by simp [htext] at hr, fun _ hall => ?_⟩
      obtain ⟨text, rfl⟩ := hall value rfl
      cases htext
    | some text =>
      obtain rfl : value = .str text := by
        cases value <;> simp [Value.asStr?] at htext
        rw [htext]
      refine ⟨fun r hr => ⟨fun v hv => ⟨text, (Option.some.inj hv).symm⟩, ?_⟩, fun h => ?_⟩
      · rw [joined_concat_some cs hgiven]
        exact (Option.some.inj hr).symm
      · simp [Value.asStr?] at h

theorem CompletedToolTurn.takeText_spec {cs : List Choice} {s : CompletedToolTurn}
    (hcontent : s.content = joined "content" cs)
    (hreasoning : s.reasoning = joined "reasoning_content" cs) (choice : Choice) :
    (∀ s', s.takeText choice.delta = .ok s' → PlainText choice.delta ∧
      s' = { s with
        content := joined "content" (cs ++ [choice])
        reasoning := joined "reasoning_content" (cs ++ [choice]) }) ∧
    ∀ s', s.takeText choice.delta = .error s' → s'.failed = true ∧ ¬ PlainText choice.delta := by
  obtain ⟨hok₁, hno₁⟩ := pushText_spec "content" cs choice
  obtain ⟨hok₂, hno₂⟩ := pushText_spec "reasoning_content" cs choice
  rw [← hcontent] at hok₁ hno₁
  rw [← hreasoning] at hok₂ hno₂
  unfold CompletedToolTurn.takeText
  split
  · rename_i h₁
    refine ⟨fun s' h => (by cases h), fun s' h => ?_⟩
    cases h
    exact ⟨rfl, fun hplain => hno₁ h₁ (hplain "content" (by simp))⟩
  · rename_i content h₁
    obtain ⟨htext₁, rfl⟩ := hok₁ content h₁
    split
    · rename_i h₂
      refine ⟨fun s' h => (by cases h), fun s' h => ?_⟩
      cases h
      exact ⟨rfl, fun hplain => hno₂ h₂ (hplain "reasoning_content" (by simp))⟩
    · rename_i reasoning h₂
      obtain ⟨htext₂, rfl⟩ := hok₂ reasoning h₂
      refine ⟨fun s' h => ?_, fun s' h => (by cases h)⟩
      cases h
      refine ⟨fun key hkey => ?_, rfl⟩
      simp only [List.mem_cons, List.not_mem_nil, or_false] at hkey
      rcases hkey with rfl | rfl
      · exact htext₁
      · exact htext₂

/-! ## One frame -/

/-- What the accumulator holds after the choices of clean frames. -/
structure Holds (cs : List Choice) (s : CompletedToolTurn) : Prop where
  content : s.content = joined "content" cs
  reasoning : s.reasoning = joined "reasoning_content" cs
  tools : ToolsOf s.tools (chunks cs)
  agreeing : ∀ index, Agreeing (chunksAt index (chunks cs))
  finished : s.finished = cs.any (·.finishReason.isSome)
  failed : s.failed = false

/-- A frame that keeps clean calls clean. -/
def CleanFrame (cs : List Choice) (frame : Response) : Prop :=
  ∃ choice, frame.choices = [choice] ∧ choice.index = 0 ∧ (∀ c ∈ cs, c.finishReason = none) ∧
    Plain choice.delta ∧ PlainText choice.delta ∧
    (∀ index, Agreeing (chunksAt index (chunks (cs ++ [choice])))) ∧
    ∀ r, choice.finishReason = some r → r = .str "tool_calls"

theorem badRole_eq_false {delta : Value} :
    badRole delta = false ↔ ∀ role, delta.given? "role" = some role → role = .str "assistant" := by
  unfold badRole
  cases delta.given? "role" <;> simp

theorem chunks_concat (cs : List Choice) (choice : Choice) :
    chunks (cs ++ [choice]) = chunks cs ++ choice.toolCalls.getD [] := by
  simp [chunks]

/-- Behind the guards: text, tool chunks and the reason of the only choice. -/
theorem observe_single {cs : List Choice} {s : CompletedToolTurn} {frame : Response}
    {choice : Choice} (hs : Holds cs s) (hframe : frame.choices = [choice]) :
    (CleanFrame cs frame ∧ Holds (cs ++ [choice]) (s.observe frame)) ∨
      (¬ CleanFrame cs frame ∧ (s.observe frame).failed = true) := by
  have honly : ∀ choice', frame.choices = [choice'] → choice' = choice := fun choice' h => by
    rw [hframe] at h
    exact (List.cons.inj h).1.symm
  unfold CompletedToolTurn.observe
  rw [hframe]
  simp only [hs.failed, Bool.false_or, List.isEmpty_nil, Bool.not_true, Bool.or_false]
  split
  · rename_i hguard
    refine Or.inr ⟨?_, rfl⟩
    rintro ⟨choice', hchoice, hindex, hopen, -⟩
    obtain rfl := honly choice' hchoice
    rw [Bool.or_eq_true, hs.finished, List.any_eq_true, decide_eq_true_eq] at hguard
    rcases hguard with ⟨c, hc, hreason⟩ | hne
    · rw [hopen c hc] at hreason
      cases hreason
    · exact hne hindex
  rename_i hguard
  simp only [Bool.or_eq_true, decide_eq_true_eq, not_or, Bool.not_eq_true, ne_eq,
    Classical.not_not] at hguard
  obtain ⟨hfinished, hindex⟩ := hguard
  have hopen : ∀ c ∈ cs, c.finishReason = none := by
    rw [hs.finished, List.any_eq_false] at hfinished
    exact fun c hc => by simpa using hfinished c hc
  split
  · rename_i hplain
    refine Or.inr ⟨?_, rfl⟩
    rintro ⟨choice', hchoice, -, -, ⟨hrefusal, hcall, hrole⟩, -⟩
    obtain rfl := honly choice' hchoice
    rw [hrefusal, hcall, badRole_eq_false.2 hrole] at hplain
    simp at hplain
  rename_i hplain
  simp only [Bool.or_eq_true, not_or, Bool.not_eq_true, Option.isSome_eq_false_iff,
    Option.isNone_iff_eq_none, badRole_eq_false] at hplain
  obtain ⟨⟨hcall, hrefusal⟩, hrole⟩ := hplain
  obtain ⟨htext, hnotext⟩ := CompletedToolTurn.takeText_spec hs.content hs.reasoning choice
  split
  · -- an early return
    rename_i s' htaken
    rcases Except.bind_eq_error_iff.1 htaken with h | ⟨s₁, h₁, h⟩
    · obtain ⟨hfailed, hno⟩ := hnotext s' h
      refine Or.inr ⟨?_, hfailed⟩
      rintro ⟨choice', hchoice, -, -, -, htext', -⟩
      obtain rfl := honly choice' hchoice
      exact hno htext'
    · obtain ⟨-, rfl⟩ := htext s₁ h₁
      obtain ⟨hfailed, hno⟩ :=
        (CompletedToolTurn.takeChunks_spec (by exact hs.tools) hs.agreeing).2 s' h
      refine Or.inr ⟨?_, hfailed⟩
      rintro ⟨choice', hchoice, -, -, -, -, hagree, -⟩
      obtain rfl := honly choice' hchoice
      rw [chunks_concat] at hagree
      exact hno hagree
  · rename_i s' htaken
    obtain ⟨s₁, h₁, h⟩ := Except.bind_eq_ok_iff.1 htaken
    obtain ⟨hplaintext, rfl⟩ := htext s₁ h₁
    obtain ⟨hagree, htools, hs'⟩ :=
      (CompletedToolTurn.takeChunks_spec (by exact hs.tools) hs.agreeing).1 s' h
    rw [← chunks_concat] at hagree htools
    unfold CompletedToolTurn.takeReason
    split
    · rename_i hreason
      refine Or.inl ⟨⟨choice, hframe, hindex, hopen, ⟨hrefusal, hcall, hrole⟩, hplaintext, hagree,
        fun r hr => by rw [hreason] at hr; cases hr⟩, ?_, ?_, htools, hagree, ?_, ?_⟩
      · rw [hs']
      · rw [hs']
      · rw [hs', List.any_append]
        simp [hs.finished, hreason]
      · rw [hs']
        exact hs.failed
    · rename_i reason hreason
      simp only
      split
      · rename_i hne
        refine Or.inr ⟨?_, rfl⟩
        rintro ⟨choice', hchoice, -, -, -, -, -, hcalls⟩
        obtain rfl := honly choice' hchoice
        exact hne (hcalls reason hreason)
      · rename_i heq
        refine Or.inl ⟨⟨choice, hframe, hindex, hopen, ⟨hrefusal, hcall, hrole⟩, hplaintext, hagree,
          fun r hr => ?_⟩, ?_, ?_, htools, hagree, ?_, ?_⟩
        · rw [hreason, Option.some.injEq] at hr
          rw [← hr]
          exact Classical.not_not.1 heq
        · rw [hs']
        · rw [hs']
        · simp [hreason]
        · rw [hs']
          exact hs.failed

/-- One frame with a choice: it keeps the calls clean and is held, or the accumulator fails. -/
theorem observe_spec {cs : List Choice} {s : CompletedToolTurn} {frame : Response}
    (hs : Holds cs s) (hne : frame.choices ≠ []) :
    (CleanFrame cs frame ∧ Holds (cs ++ frame.choices) (s.observe frame)) ∨
      (¬ CleanFrame cs frame ∧ (s.observe frame).failed = true) := by
  cases hframe : frame.choices with
  | nil => exact absurd hframe hne
  | cons choice others =>
    cases others with
    | nil => exact observe_single hs hframe
    | cons other others =>
      refine Or.inr ⟨?_, ?_⟩
      · rintro ⟨_, h, -⟩
        rw [hframe] at h
        cases h
      · unfold CompletedToolTurn.observe
        rw [hframe]
        simp only [List.isEmpty_cons, Bool.not_false, Bool.or_true, Bool.true_or, if_true]
        rfl

/-! ## All calls -/

theorem failed_call {s : CompletedToolTurn} (h : s.failed = true) (call : Call) :
    (s.call call).failed = true := by
  cases call with
  | reject => rfl
  | observe frame =>
    unfold CompletedToolTurn.call CompletedToolTurn.observe
    simp only
    split
    · exact h
    · rw [if_pos (by simp [h])]
      rfl

theorem choices_concat_observe {calls : List Call} {frame : Response} :
    choices (calls ++ [.observe frame]) = choices calls ++ frame.choices := by
  cases h : frame.choices with
  | nil => simp [choices, frames, h]
  | cons choice others => simp [choices, frames, h]

theorem choices_concat_reject {calls : List Call} :
    choices (calls ++ [.reject]) = choices calls := by
  simp [choices, frames]

theorem frames_concat_observe {calls : List Call} {frame : Response} (h : frame.choices ≠ []) :
    frames (calls ++ [.observe frame]) = frames calls ++ [frame] := by
  simp [frames, h]

theorem clean_nil : Clean [] where
  notRejected := List.not_mem_nil
  single := by simp [frames]
  plain := by simp [choices, frames]
  texts := by simp [choices, frames]
  earlier := by simp [choices, frames]
  reason := by simp [choices, frames]
  agreeing := fun _ => agreeing_nil

/-- A frame without a choice changes nothing. -/
theorem clean_concat_empty {calls : List Call} {frame : Response} (h : frame.choices = []) :
    Clean (calls ++ [.observe frame]) ↔ Clean calls := by
  have hframes : frames (calls ++ [.observe frame]) = frames calls := by simp [frames, h]
  have hchoices : choices (calls ++ [.observe frame]) = choices calls := by
    rw [choices, hframes, choices]
  constructor
  · rintro ⟨h₁, h₂, h₃, h₄, h₅, h₆, h₇⟩
    rw [hframes] at h₂
    rw [hchoices] at h₃ h₄ h₅ h₆ h₇
    exact ⟨fun hmem => h₁ (List.mem_append_left _ hmem), h₂, h₃, h₄, h₅, h₆, h₇⟩
  · rintro ⟨h₁, h₂, h₃, h₄, h₅, h₆, h₇⟩
    rw [← hframes] at h₂
    rw [← hchoices] at h₃ h₄ h₅ h₆ h₇
    exact ⟨by simpa using h₁, h₂, h₃, h₄, h₅, h₆, h₇⟩

/-- A frame with a choice keeps clean calls clean exactly if it is a clean frame. -/
theorem clean_concat {calls : List Call} {frame : Response} (hne : frame.choices ≠ []) :
    Clean (calls ++ [.observe frame]) ↔ Clean calls ∧ CleanFrame (choices calls) frame := by
  constructor
  · rintro ⟨h₁, h₂, h₃, h₄, h₅, h₆, h₇⟩
    rw [frames_concat_observe hne] at h₂
    obtain ⟨choice, hchoice, hindex⟩ := h₂ frame (by simp)
    rw [choices_concat_observe, hchoice] at h₃ h₄ h₅ h₆ h₇
    rw [List.dropLast_concat] at h₅
    refine ⟨⟨fun hmem => h₁ (List.mem_append_left _ hmem), fun f hf => h₂ f (by simp [hf]),
      fun c hc => h₃ c (by simp [hc]), fun c hc => h₄ c (by simp [hc]),
      fun c hc => h₅ c (List.dropLast_subset _ hc), fun c hc r hr => ?_, fun index => ?_⟩,
      choice, hchoice, hindex, h₅, h₃ choice (by simp), h₄ choice (by simp), h₇,
      h₆ choice (by simp)⟩
    · rw [h₅ c (List.mem_of_getLast? hc)] at hr
      cases hr
    · have h := h₇ index
      rw [chunks_concat, chunksAt, List.filter_append, List.map_append] at h
      exact h.of_append
  · rintro ⟨⟨h₁, h₂, h₃, h₄, h₅, h₆, h₇⟩, choice, hchoice, hindex, hopen, hplain, htext, hagree, hreason⟩
    refine ⟨by simpa using h₁, ?_, ?_, ?_, ?_, ?_, ?_⟩
    · rw [frames_concat_observe hne]
      intro f hf
      rcases List.mem_append.1 hf with hf | hf
      · exact h₂ f hf
      · rw [List.mem_singleton.1 hf]
        exact ⟨choice, hchoice, hindex⟩
    all_goals rw [choices_concat_observe, hchoice]
    · intro c hc
      rcases List.mem_append.1 hc with hc | hc
      · exact h₃ c hc
      · rwa [List.mem_singleton.1 hc]
    · intro c hc
      rcases List.mem_append.1 hc with hc | hc
      · exact h₄ c hc
      · rwa [List.mem_singleton.1 hc]
    · rw [List.dropLast_concat]
      exact hopen
    · intro c hc
      rw [List.getLast?_concat, Option.some.injEq] at hc
      exact hc ▸ hreason
    · exact hagree

/-- **After clean calls the accumulator holds the fragments, after others it has failed.** -/
theorem run_spec (calls : List Call) :
    (Clean calls ∧ Holds (choices calls) (run calls)) ∨ (¬ Clean calls ∧ (run calls).failed = true) := by
  induction calls using List.reverseRecOn with
  | nil => exact Or.inl ⟨clean_nil, rfl, rfl, toolsOf_nil, fun _ => agreeing_nil, rfl, rfl⟩
  | append_singleton calls call ih =>
    have hrun : run (calls ++ [call]) = (run calls).call call := by
      simp [run]
    rw [hrun]
    cases call with
    | reject => exact Or.inr ⟨fun h => h.notRejected (by simp), rfl⟩
    | observe frame =>
      by_cases hne : frame.choices = []
      · have hsame : (run calls).call (.observe frame) = run calls := by
          simp [CompletedToolTurn.call, CompletedToolTurn.observe, hne]
        rw [hsame, clean_concat_empty hne, choices_concat_observe, hne, List.append_nil]
        exact ih
      · rw [clean_concat hne, choices_concat_observe]
        rcases ih with ⟨hclean, hholds⟩ | ⟨hnot, hfailed⟩
        · rcases observe_spec hholds hne with ⟨hframe, h⟩ | ⟨hframe, h⟩
          · exact Or.inl ⟨⟨hclean, hframe⟩, h⟩
          · exact Or.inr ⟨fun h => hframe h.2, h⟩
        · exact Or.inr ⟨fun h => hnot h.1, failed_call hfailed _⟩

end ReedCode.SpeculativePrefill
