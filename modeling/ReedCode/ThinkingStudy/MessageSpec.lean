import Mathlib.Order.Bounds.Basic
import ReedCode.ThinkingStudy.MessageRun

/-!
# What the message parser accepts

* `WellFormed` — a stream of events as the protocol has it.
* `blockText`, `callOutcome` — the text and the arguments of a block, from its opening and its deltas.
* `readCall_spec` — one tool call.
* `parseMessage_sound` — **a clean verdict is sound**, and the texts are those of the blocks.
-/

set_option autoImplicit false

namespace ReedCode.ThinkingStudy

open WireCapture (Key)

/-! ## Streams, texts and calls -/

/-- A stream of events that is complete and in order. -/
structure WellFormed (events : List Event) : Prop where
  objects : ∀ e ∈ events, e.data.isObject = true
  oneStart : events.countP (fun e => e.kind = .str "message_start") = 1
  stopLast : ∃ pre stop, events = pre ++ [stop] ∧ stop.kind = .str "message_stop" ∧
    ∀ e ∈ pre, e.kind ≠ .str "message_stop"
  noError : ∀ e ∈ events, e.kind ≠ .str "error"
  openedOnce : (openedKeys events).Nodup
  opened : ∀ pre e post, events = pre ++ e :: post →
    e.kind = .str "content_block_delta" ∨ e.kind = .str "content_block_stop" →
      ∃ key, e.key = .ok key ∧ key ∈ openedKeys pre ∧ key ∉ closedKeys pre
  closed : ∀ key ∈ openedKeys events, key ∈ closedKeys events
  known : ∃ reason ∈ knownStopReasons, (stopReasons events).getLast? = some (.str reason)

def strOf : Value → String
  | .str s => s
  | _ => ""

/-- The text that a block was opened with, and those of its deltas. -/
def blockText (content : Fields) (deltas : List Fields) : String :=
  strOf (fieldOr content "text" (.str "")) ++
    String.join ((pieces "text_delta" "text" deltas).map strOf)

/-- What `json.loads` makes of the deltas of a block; without any, the input it was opened with. -/
def callOutcome (lib : Libraries) (content : Fields) (deltas : List Fields) : Outcome Value :=
  let json := String.join ((pieces "input_json_delta" "partial_json" deltas).map strOf)
  if json ≠ "" then lib.loads json else .returned (fieldOr content "input" (.dict []))

def Outcome.valueOrNull : Outcome Value → Value
  | .returned v => v
  | _ => .null

/-- Arguments that are an object, and valid for the schema of the tool that is named. -/
def ValidArguments (lib : Libraries) (tools : FinMap Key Value) (content : Fields)
    (outcome : Outcome Value) : Prop :=
  ∃ args key schema validate, outcome = .returned args ∧ args.isObject = true ∧
    hashed (fieldOr content "name" .null) = .ok key ∧ tools.get? key = some schema ∧
    schema ≠ .null ∧ lib.jsonschema = some validate ∧ validate args schema = .returned .valid

theorem pyAdd_eq_str {a b : Value} {s : String} (h : pyAdd a b = .ok (.str s)) :
    ∃ x y, a = .str x ∧ b = .str y ∧ s = x ++ y := by
  unfold pyAdd at h
  split at h
  · rename_i x y
    cases h
    exact ⟨x, y, rfl, rfl, rfl⟩
  · cases h
  · split at h
    · cases h
    · split at h <;> cases h

/-- A sum that is a text is one of texts. -/
theorem foldlM_pyAdd_eq_str : ∀ {values : List Value} {v : Value} {s : String},
    values.foldlM pyAdd v = .ok (.str s) →
      ∃ x texts, v = .str x ∧ values = texts.map .str ∧ s = x ++ String.join texts
  | [], v, s, h => by
    cases h
    exact ⟨s, [], rfl, rfl, (String.append_empty).symm⟩
  | b :: values, v, s, h => by
    rw [List.foldlM_cons] at h
    obtain ⟨w, hadd, h⟩ := Except.bind_eq_ok_iff.1 h
    obtain ⟨x, texts, rfl, rfl, rfl⟩ := foldlM_pyAdd_eq_str h
    obtain ⟨p, q, rfl, rfl, rfl⟩ := pyAdd_eq_str hadd
    refine ⟨p, q :: texts, rfl, rfl, ?_⟩
    rw [String.join_cons, String.append_assoc]

theorem map_strOf (texts : List String) : (texts.map Value.str).map strOf = texts := by
  rw [List.map_map]
  exact List.map_id texts

section Blocks

variable {content : Fields} {deltas : List Fields} {closedAt : Int → Prop} {b : Block}

theorem BlockOf.text_eq (h : BlockOf content deltas closedAt b) {text : String}
    (htext : textOf (b.text.getD (.str "")) = .ok text) : text = blockText content deltas := by
  have hstr : b.text.getD (.str "") = .str text := by
    cases hb : b.text.getD (.str "") with
    | str s =>
      rw [hb] at htext
      cases htext
      rfl
    | _ =>
      rw [hb] at htext
      cases htext
  have hfold := h.text
  rw [hstr] at hfold
  obtain ⟨x, texts, hx, htexts, rfl⟩ := foldlM_pyAdd_eq_str hfold
  rw [blockText, hx, htexts, map_strOf]
  rfl

theorem BlockOf.arguments_eq (lib : Libraries) (h : BlockOf content deltas closedAt b) :
    b.arguments lib = callOutcome lib content deltas := by
  obtain ⟨texts, hpieces, hjson⟩ := h.partialJson
  rw [Block.arguments, callOutcome, hpieces, map_strOf, hjson, h.opened]

theorem BlockOf.type_eq (h : BlockOf content deltas closedAt b) :
    b.type = fieldOr content "type" .null := by
  rw [Block.type, h.opened]

end Blocks

/-! ## One call -/

variable {lib : Libraries} {tools : FinMap Key Value}

theorem checkSchema_eq_true {block : Block} {args : Value} {verdict : Option Bool}
    (h : checkSchema lib tools block args = .ok verdict) : verdict = some true ↔
      ∃ key schema validate, hashed (fieldOr block.content "name" .null) = .ok key ∧
        tools.get? key = some schema ∧ schema ≠ .null ∧ lib.jsonschema = some validate ∧
        validate args schema = .returned .valid := by
  unfold checkSchema at h
  split at h
  · rename_i name hname
    have hfield : fieldOr block.content "name" .null = name := by rw [fieldOr, hname]; rfl
    rw [hfield]
    obtain ⟨key, hkey, h⟩ := Except.bind_eq_ok_iff.1 h
    rw [hkey]
    split at h
    · rename_i schema hschema
      have hiff : (∃ key' schema' validate, Except.ok key = Except.ok (ε := String) key' ∧
          tools.get? key' = some schema' ∧ schema' ≠ .null ∧ lib.jsonschema = some validate ∧
          validate args schema' = .returned .valid) ↔
          schema ≠ .null ∧ ∃ validate, lib.jsonschema = some validate ∧
            validate args schema = .returned .valid := by
        constructor
        · rintro ⟨key', _, validate, hkey', hget, hne, hvalidate, hvalid⟩
          obtain rfl := Except.ok.inj hkey'
          rw [hschema] at hget
          cases hget
          exact ⟨hne, validate, hvalidate, hvalid⟩
        · rintro ⟨hne, validate, hvalidate, hvalid⟩
          exact ⟨key, schema, validate, rfl, hschema, hne, hvalidate, hvalid⟩
      rw [hiff]
      by_cases hnull : schema = .null
      · rw [if_pos hnull] at h
        cases h
        exact iff_of_false (by simp) fun hne => hne.1 hnull
      · rw [if_neg hnull] at h
        rw [and_iff_right hnull]
        cases hlib : lib.jsonschema with
        | none =>
          rw [hlib] at h
          cases h
          exact iff_of_false (by simp) (by simp)
        | some validate =>
          have hsingle : (∃ validate', some validate = some validate' ∧
              validate' args schema = .returned .valid) ↔
              validate args schema = .returned .valid := by simp
          rw [hlib] at h
          rw [hsingle]
          dsimp only at h
          cases hvalidate : validate args schema with
          | returned verdict' =>
            rw [hvalidate] at h
            cases verdict' <;> cases h <;> simp
          | valueError =>
            rw [hvalidate] at h
            cases h
            simp
          | raised exception =>
            rw [hvalidate] at h
            cases h
    · cases h
  · cases h

theorem readCall_spec {block : Block} {call : Call} (h : readCall lib tools block = .ok call) :
    (call.id, call.name, call.arguments) = (fieldOr block.content "id" .null,
      fieldOr block.content "name" .null, (block.arguments lib).valueOrNull) ∧
    call.closedAtNs = block.closedAtNs ∧
    (call.isValid = true ↔ block.closed = true ∧
      ValidArguments lib tools block.content (block.arguments lib)) := by
  unfold readCall at h
  dsimp only at h
  unfold ValidArguments
  cases houtcome : block.arguments lib with
  | valueError =>
    rw [houtcome] at h
    cases h
    exact ⟨rfl, rfl, iff_of_false (by simp [Call.isValid]) (by simp)⟩
  | raised exception =>
    rw [houtcome] at h
    cases h
  | returned args =>
    rw [houtcome] at h
    dsimp only at h
    by_cases hclosed : block.closed = true
    · rw [if_pos hclosed] at h
      obtain ⟨known, hknown, h⟩ := Except.bind_eq_ok_iff.1 h
      obtain ⟨key, hkey, hk⟩ := Except.bind_eq_ok_iff.1 hknown
      cases hk
      split at h
      · rename_i hboth
        obtain ⟨verdict, hverdict, h⟩ := Except.bind_eq_ok_iff.1 h
        cases h
        refine ⟨rfl, rfl, ?_⟩
        have hvalid := checkSchema_eq_true hverdict
        rw [and_iff_right hclosed]
        constructor
        · intro hcall
          have htrue : verdict = some true := by simpa [Call.isValid] using hcall
          obtain ⟨key', schema, validate, hname, hget, hne, hlib, hv⟩ := hvalid.1 htrue
          exact ⟨args, key', schema, validate, rfl, hboth.2, hname, hget, hne, hlib, hv⟩
        · rintro ⟨args', key', schema, validate, hargs, -, hname, hget, hne, hlib, hv⟩
          cases hargs
          have htrue := hvalid.2 ⟨key', schema, validate, hname, hget, hne, hlib, hv⟩
          simp [Call.isValid, htrue]
      · rename_i hnot
        cases h
        refine ⟨rfl, rfl, iff_of_false (by simp [Call.isValid]) ?_⟩
        rintro ⟨-, args', key', schema, validate, hargs, hobject, hkey', hget, -⟩
        cases hargs
        rw [hkey] at hkey'
        cases hkey'
        refine hnot ⟨?_, hobject⟩
        rw [FinMap.contains_eq_isSome, hget]
        rfl
    · rw [if_neg hclosed] at h
      cases h
      exact ⟨rfl, rfl, iff_of_false (by simp [Call.isValid]) fun hc => hclosed hc.1⟩

/-! ## The verdict -/

/-- What a parse reads off the state behind the events. -/
theorem parseMessage_eq_ok {events : List Event} {body : Value} {m : Message} :
    parseMessage lib events body = .ok m → ∃ tools s,
      toolsOf body = .ok tools ∧ events.foldlM (MessageState.step lib.dumps) .new = .ok s ∧
      ((s.blocks.entries.map Prod.snd).filter fun b => b.type = .str "tool_use").mapM
        (readCall lib tools) = .ok m.toolCalls ∧
      joinTexts (s.blocks.entries.map Prod.snd) "text" Block.text = .ok m.finalText ∧
      m.messageStop = s.terminal ∧ m.errors = s.errors ++ s.endErrors ∧
      m.firstValidCompleteToolNs =
        (if s.terminal ∧ s.stopReason = .str "tool_use" ∧ m.errors = [] then
          (m.toolCalls.filter Call.isValid).filterMap Call.closedAtNs else []).min? := by
  intro h
  unfold parseMessage at h
  obtain ⟨tools, htools, h⟩ := Except.bind_eq_ok_iff.1 h
  obtain ⟨s, hs, h⟩ := Except.bind_eq_ok_iff.1 h
  obtain ⟨calls, hcalls, h⟩ := Except.bind_eq_ok_iff.1 h
  obtain ⟨finalText, htext, h⟩ := Except.bind_eq_ok_iff.1 h
  obtain ⟨thinking, -, h⟩ := Except.bind_eq_ok_iff.1 h
  cases h
  exact ⟨tools, s, htools, hs, hcalls, htext, rfl, rfl, rfl⟩

theorem endErrors_eq_nil {s : MessageState} : s.endErrors = [] ↔ s.starts = 1 ∧
    (s.terminal = true → (∃ reason ∈ knownStopReasons, s.stopReason = .str reason) ∧
      ∀ e ∈ s.blocks.entries, e.2.closed = true) := by
  have hunless : ∀ (c : Prop) [Decidable c] (error : String),
      (if c then [error] else []) = [] ↔ ¬ c := by
    intro c _ error
    split <;> simp [*]
  rw [MessageState.endErrors, List.append_eq_nil_iff, List.append_eq_nil_iff, hunless, hunless,
    hunless]
  constructor
  · rintro ⟨⟨hstarts, hreason⟩, hopen⟩
    refine ⟨Classical.not_not.1 hstarts, fun hterminal => ⟨?_, fun e he => ?_⟩⟩
    · exact Classical.not_not.1 fun hunknown => hreason ⟨hterminal, hunknown⟩
    · by_contra hne
      exact hopen ⟨hterminal, e, he, by simpa using hne⟩
  · rintro ⟨hstarts, hstop⟩
    refine ⟨⟨fun hne => hne hstarts, fun hc => hc.2 (hstop hc.1).1⟩, ?_⟩
    rintro ⟨hterminal, e, he, hopen⟩
    rw [(hstop hterminal).2 e he] at hopen
    cases hopen

section Clean

variable {events : List Event} {s : MessageState}

theorem Behind.wellFormed (h : Behind events s) (hterminal : s.terminal = true)
    (hend : s.endErrors = []) : WellFormed events := by
  obtain ⟨hstarts, hstop⟩ := endErrors_eq_nil.1 hend
  obtain ⟨⟨reason, hknown, hreason⟩, hclosed⟩ := hstop hterminal
  have hall : ∀ e ∈ events, ∃ pre, Admissible pre e := by
    intro e he
    obtain ⟨pre, post, hsplit⟩ := List.append_of_mem he
    exact ⟨pre, h.admissible pre e post hsplit⟩
  refine ⟨?_, h.starts ▸ hstarts, ?_, ?_, ?_, ?_, ?_, ⟨reason, hknown, ?_⟩⟩
  · intro e he
    obtain ⟨pre, hpre⟩ := hall e he
    exact hpre.object
  · obtain ⟨stop, hin, hkind⟩ := h.terminal.1 hterminal
    obtain ⟨pre, post, hsplit⟩ := List.append_of_mem hin
    rcases List.eq_nil_or_concat' post with rfl | ⟨post, last, rfl⟩
    · exact ⟨pre, stop, hsplit, hkind, (h.admissible pre stop [] hsplit).beforeStop⟩
    · have hassoc : events = (pre ++ stop :: post) ++ last :: [] := by simp [hsplit]
      exact absurd hkind ((h.admissible _ last [] hassoc).beforeStop stop (by simp))
  · intro e he
    obtain ⟨pre, hpre⟩ := hall e he
    exact hpre.noError
  · rw [← h.blocks.keys]
    exact s.blocks.keys_nodup
  · exact fun pre e post hsplit => (h.admissible pre e post hsplit).opened
  · intro key hkey
    obtain ⟨⟨key, content⟩, hin, rfl⟩ := List.mem_map.1 hkey
    obtain ⟨b, hget, hof⟩ := h.blocks.blockOf key content hin
    have hbclosed := hclosed (key, b) (FinMap.mem_entries.2 hget)
    rw [hof.closed] at hbclosed
    obtain ⟨t, ht⟩ := Option.isSome_iff_exists.1 hbclosed
    exact List.mem_map_of_mem ((hof.closedAt t).1 ht)
  · rw [h.reason] at hreason
    cases hlast : (stopReasons events).getLast? with
    | none =>
      rw [hlast] at hreason
      cases hreason
    | some v =>
      rw [hlast] at hreason
      exact congrArg some hreason

/-- The blocks of a type, as their openings and deltas have them. -/
theorem Behind.blocks_of_type (h : Behind events s) (type : String) :
    ∃ blockAt : Key → Block,
      ((s.blocks.entries.map Prod.snd).filter fun b => b.type = .str type) =
        ((openings events).filter fun o => fieldOr o.2 "type" .null = .str type).map
          (fun o => blockAt o.1) ∧
      ∀ o ∈ openings events, BlockOf o.2 (deltasOf events o.1)
        (fun t => (o.1, t) ∈ closings events) (blockAt o.1) := by
  have hof : ∀ o ∈ openings events, BlockOf o.2 (deltasOf events o.1)
      (fun t => (o.1, t) ∈ closings events) ((s.blocks.get? o.1).getD (Block.new [])) := by
    intro o ho
    obtain ⟨b, hget, hof⟩ := h.blocks.blockOf o.1 o.2 ho
    rw [hget]
    exact hof
  refine ⟨fun key => (s.blocks.get? key).getD (Block.new []), ?_, hof⟩
  have hentries : s.blocks.entries.map Prod.snd =
      (openings events).map fun o => (s.blocks.get? o.1).getD (Block.new []) := by
    have hkeys : s.blocks.entries.map Prod.fst = (openings events).map Prod.fst := h.blocks.keys
    have hvalues : s.blocks.entries.map Prod.snd = (s.blocks.entries.map Prod.fst).map fun key =>
        (s.blocks.get? key).getD (Block.new []) := by
      rw [List.map_map]
      refine List.map_congr_left fun e he => ?_
      have hget : s.blocks.get? e.1 = some e.2 := FinMap.mem_entries.1 he
      rw [Function.comp_apply, hget]
      rfl
    rw [hvalues, hkeys, List.map_map]
    rfl
  rw [hentries, List.filter_map]
  congr 1
  refine List.filter_congr fun o ho => ?_
  rw [Function.comp_apply, (hof o ho).type_eq]

end Clean

/-- The texts of the blocks of type `text`, in the order they were opened. -/
def finalTextOf (events : List Event) : String :=
  String.join (((openings events).filter fun o => fieldOr o.2 "type" .null = .str "text").map
    fun o => blockText o.2 (deltasOf events o.1))

/-- Id, name and arguments of the tool calls, in the order they were opened. -/
def callsOf (lib : Libraries) (events : List Event) : List (Value × Value × Value) :=
  ((openings events).filter fun o => fieldOr o.2 "type" .null = .str "tool_use").map fun o =>
    (fieldOr o.2 "id" .null, fieldOr o.2 "name" .null,
      (callOutcome lib o.2 (deltasOf events o.1)).valueOrNull)

section Parse

variable {events : List Event} {body : Value} {m : Message}

theorem parseMessage_clean (h : parseMessage lib events body = .ok m) (hstop : m.messageStop = true)
    (hclean : m.errors = []) : WellFormed events ∧ m.finalText = finalTextOf events ∧
      m.toolCalls.map (fun c => (c.id, c.name, c.arguments)) = callsOf lib events := by
  obtain ⟨tools, s, htools, hs, hcalls, htext, hterminal, herrors, -⟩ := parseMessage_eq_ok h
  rw [herrors, List.append_eq_nil_iff] at hclean
  have hbehind := behind_of_clean hs hclean.1
  refine ⟨hbehind.wellFormed (hterminal ▸ hstop) hclean.2, ?_, ?_⟩
  · obtain ⟨blockAt, hblocks, hof⟩ := hbehind.blocks_of_type "text"
    unfold joinTexts at htext
    rw [hblocks] at htext
    rw [List.mapM_map] at htext
    obtain ⟨texts, htexts, hjoin⟩ := Except.bind_eq_ok_iff.1 htext
    rw [← Except.ok.inj hjoin]
    have hmap : texts.map id = ((openings events).filter fun o =>
        fieldOr o.2 "type" .null = .str "text").map
          fun o => blockText o.2 (deltasOf events o.1) :=
      Except.map_of_mapM htexts fun o ho _ hok =>
        (hof o (List.mem_of_mem_filter ho)).text_eq hok
    rw [finalTextOf, ← hmap, List.map_id]
  · obtain ⟨blockAt, hblocks, hof⟩ := hbehind.blocks_of_type "tool_use"
    rw [hblocks, List.mapM_map] at hcalls
    refine Except.map_of_mapM hcalls fun o ho call hcall => ?_
    have hblock := hof o (List.mem_of_mem_filter ho)
    rw [(readCall_spec hcall).1, hblock.opened, hblock.arguments_eq]

theorem firstValid_isLeast (h : parseMessage lib events body = .ok m) {t : Int}
    (ht : m.firstValidCompleteToolNs = some t) : m.messageStop = true ∧ m.errors = [] ∧
      (stopReasons events).getLast? = some (.str "tool_use") ∧
      ∃ tools, toolsOf body = .ok tools ∧ IsLeast {t | ∃ o ∈ openings events,
        fieldOr o.2 "type" .null = .str "tool_use" ∧
        ValidArguments lib tools o.2 (callOutcome lib o.2 (deltasOf events o.1)) ∧
        (o.1, t) ∈ closings events} t := by
  obtain ⟨tools, s, htools, hs, hcalls, -, hstop, herrors, hfirst⟩ := parseMessage_eq_ok h
  rw [hfirst] at ht
  by_cases hsafe : s.terminal = true ∧ s.stopReason = .str "tool_use" ∧ m.errors = []
  · rw [if_pos hsafe] at ht
    obtain ⟨hterminal, hreason, hnone⟩ := hsafe
    have hboth := hnone
    rw [herrors, List.append_eq_nil_iff] at hboth
    have hbehind := behind_of_clean hs hboth.1
    obtain ⟨reason, -, hlast⟩ := (hbehind.wellFormed hterminal hboth.2).known
    have htool : reason = "tool_use" := by
      have hsame := hbehind.reason
      rw [hlast, hreason] at hsame
      exact (Value.str.inj hsame).symm
    refine ⟨hstop.trans hterminal, hnone, htool ▸ hlast, tools, htools, ?_⟩
    obtain ⟨blockAt, hblocks, hof⟩ := hbehind.blocks_of_type "tool_use"
    rw [hblocks, List.mapM_map] at hcalls
    have hmem : ∀ t, t ∈ (m.toolCalls.filter Call.isValid).filterMap Call.closedAtNs ↔
        t ∈ {t | ∃ o ∈ openings events, fieldOr o.2 "type" .null = .str "tool_use" ∧
          ValidArguments lib tools o.2 (callOutcome lib o.2 (deltasOf events o.1)) ∧
          (o.1, t) ∈ closings events} := by
      intro t
      rw [List.mem_filterMap, Set.mem_ofPred_eq]
      constructor
      · rintro ⟨call, hin, hclosedAt⟩
        obtain ⟨hin, hvalid⟩ := List.mem_filter.1 hin
        obtain ⟨o, ho, hcall⟩ := Except.exists_of_mem_mapM hcalls hin
        obtain ⟨ho, htype⟩ := List.mem_filter.1 ho
        obtain ⟨-, hat, hiff⟩ := readCall_spec hcall
        have hargs := (hiff.1 hvalid).2
        rw [(hof o ho).opened, (hof o ho).arguments_eq] at hargs
        rw [hat] at hclosedAt
        exact ⟨o, ho, of_decide_eq_true htype, hargs, ((hof o ho).closedAt t).1 hclosedAt⟩
      · rintro ⟨o, ho, htype, hargs, hclosing⟩
        obtain ⟨call, hin, hcall⟩ := Except.exists_mem_of_mapM hcalls
          (List.mem_filter.2 ⟨ho, decide_eq_true htype⟩)
        obtain ⟨-, hat, hiff⟩ := readCall_spec hcall
        have hclosedAt := ((hof o ho).closedAt t).2 hclosing
        rw [(hof o ho).opened, (hof o ho).arguments_eq] at hiff
        refine ⟨call, List.mem_filter.2 ⟨hin, hiff.2 ⟨?_, hargs⟩⟩, hat.trans hclosedAt⟩
        rw [(hof o ho).closed, hclosedAt]
        rfl
    obtain ⟨hin, hleast⟩ := List.min?_eq_some_iff.1 ht
    exact ⟨(hmem t).1 hin, fun t' ht' => hleast t' ((hmem t').2 ht')⟩
  · rw [if_neg hsafe] at ht
    cases ht

end Parse

/-- **The verdict is sound.**  A parse that ends with `message_stop` and without errors has read a
well-formed stream, and its texts and arguments are those of the blocks in the order they were
opened, however their deltas interleave; a time is found only there, and is the earliest of the
valid calls. -/
theorem parseMessage_sound (lib : Libraries) {events : List Event} {body : Value} {m : Message}
    (h : parseMessage lib events body = .ok m) :
    (m.messageStop = true → m.errors = [] → WellFormed events ∧ m.finalText = finalTextOf events ∧
      m.toolCalls.map (fun c => (c.id, c.name, c.arguments)) = callsOf lib events ∧
      ∀ events' body' m', parseMessage lib events' body' = .ok m' → m'.messageStop = true →
        m'.errors = [] → openings events' = openings events →
        (∀ key, deltasOf events' key = deltasOf events key) → m'.finalText = m.finalText ∧
          m'.toolCalls.map (fun c => (c.id, c.name, c.arguments)) =
            m.toolCalls.map fun c => (c.id, c.name, c.arguments)) ∧
    ∀ t, m.firstValidCompleteToolNs = some t → m.messageStop = true ∧ m.errors = [] ∧
      (stopReasons events).getLast? = some (.str "tool_use") ∧
      ∃ tools, toolsOf body = .ok tools ∧ IsLeast {t | ∃ o ∈ openings events,
        fieldOr o.2 "type" .null = .str "tool_use" ∧
        ValidArguments lib tools o.2 (callOutcome lib o.2 (deltasOf events o.1)) ∧
        (o.1, t) ∈ closings events} t := by
  refine ⟨fun hstop hclean => ?_, fun t ht => firstValid_isLeast h ht⟩
  obtain ⟨hformed, htext, hcalls⟩ := parseMessage_clean h hstop hclean
  refine ⟨hformed, htext, hcalls, fun events' body' m' h' hstop' hclean' hopenings hdeltas => ?_⟩
  obtain ⟨-, htext', hcalls'⟩ := parseMessage_clean h' hstop' hclean'
  rw [htext, htext', hcalls, hcalls']
  simp only [finalTextOf, callsOf, hopenings, hdeltas, and_self]

/-! ## Two streams -/

/-- An event with a type and further fields. -/
def eventOf (atNs : Int) (type : String) (fields : Fields) : Event :=
  ⟨atNs, .dict (("type", .str type) :: fields)⟩

/-- Libraries that know one text. -/
def oneText : Libraries where
  loads text := if text = "[]" then .returned (.list []) else .valueError
  dumps _ := ""
  jsonschema := some fun _ _ => .returned .valid

/-- A block that is opened with some text already. -/
def greeting : List Event :=
  [eventOf 1 "message_start" [],
    eventOf 2 "content_block_start" [("index", .int 0),
      ("content_block", .dict [("type", .str "text"), ("text", .str "Hi")])],
    eventOf 3 "content_block_delta" [("index", .int 0),
      ("delta", .dict [("type", .str "text_delta"), ("text", .str " there")])],
    eventOf 4 "content_block_stop" [("index", .int 0)],
    eventOf 5 "message_delta" [("delta", .dict [("stop_reason", .str "end_turn")])],
    eventOf 6 "message_stop" []]

/-- A tool call without deltas. -/
def reading : List Event :=
  [eventOf 1 "message_start" [],
    eventOf 2 "content_block_start" [("index", .int 0),
      ("content_block", .dict [("type", .str "tool_use"), ("name", .str "read"),
        ("input", .dict [])])],
    eventOf 3 "content_block_stop" [("index", .int 0)],
    eventOf 4 "message_delta" [("delta", .dict [("stop_reason", .str "tool_use")])],
    eventOf 5 "message_stop" []]

def readTool : Value :=
  .dict [("tools", .list [.dict [("name", .str "read"), ("input_schema", .dict [])]])]

theorem exists_of_toOption_map {α β : Type} {x : Except String α} {f : α → β} {b : β}
    (h : x.toOption.map f = some b) : ∃ a, x = .ok a ∧ f a = b := by
  cases x with
  | error e => cases h
  | ok a => exact ⟨a, rfl, Option.some.inj h⟩

/-- The text that a block is opened with is kept, before the texts of its deltas. -/
theorem greeting_text : ∃ m, parseMessage oneText greeting readTool = .ok m ∧
    m.messageStop = true ∧ m.errors = [] ∧ m.finalText ≠
      String.join ((pieces "text_delta" "text" (deltasOf greeting (.num 0))).map strOf) := by
  have hrun : (parseMessage oneText greeting readTool).toOption.map
      (fun m => (m.messageStop, m.errors, m.finalText)) = some (true, [], "Hi there") := by
    decide +kernel
  have hdeltas : String.join ((pieces "text_delta" "text" (deltasOf greeting (.num 0))).map strOf) =
      " there" := by
    decide +kernel
  obtain ⟨m, hm, hvalues⟩ := exists_of_toOption_map hrun
  simp only [Prod.mk.injEq] at hvalues
  obtain ⟨hstop, herrors, htext⟩ := hvalues
  refine ⟨m, hm, hstop, herrors, ?_⟩
  rw [htext, hdeltas]
  decide

theorem parseMessage_sound_reading : ∃ m, parseMessage oneText reading readTool = .ok m ∧
    (m.messageStop, m.errors, m.firstValidCompleteToolNs) = (true, [], some 3) ∧
    (m.messageStop = true → m.errors = [] → WellFormed reading ∧
      m.finalText = finalTextOf reading ∧
      m.toolCalls.map (fun c => (c.id, c.name, c.arguments)) = callsOf oneText reading ∧
      ∀ events' body' m', parseMessage oneText events' body' = .ok m' → m'.messageStop = true →
        m'.errors = [] → openings events' = openings reading →
        (∀ key, deltasOf events' key = deltasOf reading key) → m'.finalText = m.finalText ∧
          m'.toolCalls.map (fun c => (c.id, c.name, c.arguments)) =
            m.toolCalls.map fun c => (c.id, c.name, c.arguments)) ∧
    ∀ t, m.firstValidCompleteToolNs = some t → m.messageStop = true ∧ m.errors = [] ∧
      (stopReasons reading).getLast? = some (.str "tool_use") ∧
      ∃ tools, toolsOf readTool = .ok tools ∧ IsLeast {t | ∃ o ∈ openings reading,
        fieldOr o.2 "type" .null = .str "tool_use" ∧
        ValidArguments oneText tools o.2 (callOutcome oneText o.2 (deltasOf reading o.1)) ∧
        (o.1, t) ∈ closings reading} t := by
  have hrun : (parseMessage oneText reading readTool).toOption.map
      (fun m => (m.messageStop, m.errors, m.firstValidCompleteToolNs)) =
        some (true, [], some 3) := by
    decide +kernel
  obtain ⟨m, hm, hvalues⟩ := exists_of_toOption_map hrun
  exact ⟨m, hm, hvalues, parseMessage_sound oneText hm⟩

end ReedCode.ThinkingStudy
