import ReedCode.Lib.Runs
import ReedCode.ThinkingStudy.Message

/-!
# Runs of the message parser without an error

* `openings`, `deltasOf`, `closings`, `stopReasons` — what a list of events does to the blocks and
  to the stop reason.
* `CleanStep` — the steps that add no error; `clean_step` finds the step.
* `Admissible` — what an event must be after the events before it.
* `Behind`, `behind_of_clean` — **the state behind events that gave no error**.
-/

set_option autoImplicit false

namespace ReedCode.ThinkingStudy

open WireCapture (Key)

/-! ## What the events do -/

def Event.fields (e : Event) : Fields :=
  match e.data with
  | .dict fields => fields
  | _ => []

def Event.kind (e : Event) : Value := fieldOr e.fields "type" .null

def Event.key (e : Event) : Except String Key := hashed (fieldOr e.fields "index" .null)

/-- The block that an event opens, and its fields. -/
def Event.opening? (e : Event) : Option (Key × Fields) :=
  if e.kind = .str "content_block_start" then
    match e.key, fieldOr e.fields "content_block" (.dict []) with
    | .ok key, .dict content => some (key, content)
    | _, _ => none
  else none

def Event.delta? (e : Event) : Option (Key × Fields) :=
  if e.kind = .str "content_block_delta" then
    match e.key, fieldOr e.fields "delta" (.dict []) with
    | .ok key, .dict delta => some (key, delta)
    | _, _ => none
  else none

/-- The block that an event closes, and when. -/
def Event.closing? (e : Event) : Option (Key × Int) :=
  if e.kind = .str "content_block_stop" then
    match e.key with
    | .ok key => some (key, e.atNs)
    | .error _ => none
  else none

/-- A stop reason that is not empty. -/
def Event.stopReason? (e : Event) : Option Value :=
  if e.kind = .str "message_delta" then
    match orEmpty (fieldOr e.fields "delta" .null) with
    | .dict delta => (some (fieldOr delta "stop_reason" .null)).filter Value.truthy
    | _ => none
  else none

def openings (events : List Event) : List (Key × Fields) := events.filterMap Event.opening?

def openedKeys (events : List Event) : List Key := (openings events).map Prod.fst

def closings (events : List Event) : List (Key × Int) := events.filterMap Event.closing?

def closedKeys (events : List Event) : List Key := (closings events).map Prod.fst

/-- The deltas of a block, in order. -/
def deltasOf (events : List Event) (key : Key) : List Fields :=
  ((events.filterMap Event.delta?).filter fun d => d.1 = key).map Prod.snd

def stopReasons (events : List Event) : List Value := events.filterMap Event.stopReason?

section Append

variable (pre : List Event) (e : Event)

theorem openings_snoc : openings (pre ++ [e]) = openings pre ++ e.opening?.toList := by
  rw [openings, List.filterMap_append]
  cases h : e.opening? <;> simp [h, openings]

theorem closings_snoc : closings (pre ++ [e]) = closings pre ++ e.closing?.toList := by
  rw [closings, List.filterMap_append]
  cases h : e.closing? <;> simp [h, closings]

theorem stopReasons_snoc : stopReasons (pre ++ [e]) = stopReasons pre ++ e.stopReason?.toList := by
  rw [stopReasons, List.filterMap_append]
  cases h : e.stopReason? <;> simp [h, stopReasons]

theorem deltasOf_snoc (key : Key) : deltasOf (pre ++ [e]) key =
    deltasOf pre key ++ ((e.delta?.filter fun d => d.1 = key).map Prod.snd).toList := by
  rw [deltasOf, List.filterMap_append, List.filter_append, List.map_append]
  cases h : e.delta? with
  | none => simp [h, deltasOf]
  | some d =>
    by_cases hd : d.1 = key <;> simp [h, hd, deltasOf, Option.filter]

end Append

/-! ## Steps without an error -/

/-- The steps that add no error. -/
inductive CleanStep (s : MessageState) (e : Event) : MessageState → Prop
  | starts (hkind : e.kind = .str "message_start") : CleanStep s e { s with starts := s.starts + 1 }
  | opens {key : Key} {content : Fields} {first : Option Int}
      (hkind : e.kind = .str "content_block_start") (hkey : e.key = .ok key)
      (hcontent : fieldOr e.fields "content_block" (.dict []) = .dict content)
      (hfresh : s.blocks.get? key = none) :
      CleanStep s e { s with
        blocks := s.blocks.insert key (Block.new content), firstText := first }
  | delta {key : Key} {delta : Fields} {block block' : Block} {first : Option Int}
      (hkind : e.kind = .str "content_block_delta") (hkey : e.key = .ok key)
      (hdelta : fieldOr e.fields "delta" (.dict []) = .dict delta)
      (hget : s.blocks.get? key = some block) (hopen : block.closed = false)
      (hadd : block.add delta = .ok block') :
      CleanStep s e { s with blocks := s.blocks.insert key block', firstText := first }
  | closes {key : Key} {block : Block}
      (hkind : e.kind = .str "content_block_stop") (hkey : e.key = .ok key)
      (hget : s.blocks.get? key = some block) (hopen : block.closed = false) :
      CleanStep s e { s with
        blocks := s.blocks.insert key { block with closed := true, closedAtNs := some e.atNs } }
  | messageDelta {usage : FinMap Key Value} {delta : Fields}
      (hkind : e.kind = .str "message_delta")
      (hdelta : orEmpty (fieldOr e.fields "delta" .null) = .dict delta) :
      CleanStep s e { s with
        finalUsage := usage, stopReason := pyOr (fieldOr delta "stop_reason" .null) s.stopReason }
  | stops (hkind : e.kind = .str "message_stop") : CleanStep s e { s with terminal := true }
  | other (hkind : ∀ kind ∈ ["message_start", "content_block_start", "content_block_delta",
      "content_block_stop", "message_delta", "message_stop"], e.kind ≠ .str kind) : CleanStep s e s

theorem fieldsOf_eq_ok {exception : String} {v : Value} {fields : Fields} :
    fieldsOf exception v = .ok fields ↔ v = .dict fields := by
  cases v <;> simp [fieldsOf]

theorem fail_errors_ne_nil (s : MessageState) (error : String) : (s.fail error).errors ≠ [] := by
  simp [MessageState.fail]

section Steps

variable {s s' : MessageState} {e : Event}

theorem openBlock_clean (hkind : e.kind = .str "content_block_start")
    (h : s.openBlock e.fields e.atNs = .ok s') (hclean : s'.errors = []) :
    s.errors = [] ∧ CleanStep s e s' := by
  unfold MessageState.openBlock at h
  obtain ⟨key, hkey, h⟩ := Except.bind_eq_ok_iff.1 h
  obtain ⟨content, hcontent, h⟩ := Except.bind_eq_ok_iff.1 h
  by_cases hin : s.blocks.contains key = true
  · rw [if_pos hin] at h
    cases h
    exact absurd hclean (fail_errors_ne_nil _ _)
  · rw [if_neg hin] at h
    cases h
    have hfresh : s.blocks.get? key = none := by
      rw [FinMap.contains_eq_isSome] at hin
      exact Option.not_isSome_iff_eq_none.1 hin
    exact ⟨hclean, .opens hkind hkey (fieldsOf_eq_ok.1 hcontent) hfresh⟩

theorem addDelta_clean (hkind : e.kind = .str "content_block_delta")
    (h : s.addDelta e.fields e.atNs = .ok s') (hclean : s'.errors = []) :
    s.errors = [] ∧ CleanStep s e s' := by
  unfold MessageState.addDelta at h
  obtain ⟨key, hkey, h⟩ := Except.bind_eq_ok_iff.1 h
  split at h
  · cases h
    exact absurd hclean (fail_errors_ne_nil _ _)
  · rename_i block hget
    by_cases hclosed : block.closed = true
    · rw [if_pos hclosed] at h
      cases h
      exact absurd hclean (fail_errors_ne_nil _ _)
    · rw [if_neg hclosed] at h
      obtain ⟨delta, hdelta, h⟩ := Except.bind_eq_ok_iff.1 h
      obtain ⟨block', hadd, h⟩ := Except.bind_eq_ok_iff.1 h
      cases h
      exact ⟨hclean, .delta hkind hkey (fieldsOf_eq_ok.1 hdelta) hget (by simpa using hclosed) hadd⟩

theorem closeBlock_clean (hkind : e.kind = .str "content_block_stop")
    (h : s.closeBlock e.fields e.atNs = .ok s') (hclean : s'.errors = []) :
    s.errors = [] ∧ CleanStep s e s' := by
  unfold MessageState.closeBlock at h
  obtain ⟨key, hkey, h⟩ := Except.bind_eq_ok_iff.1 h
  split at h
  · cases h
    exact absurd hclean (fail_errors_ne_nil _ _)
  · rename_i block hget
    by_cases hclosed : block.closed = true
    · rw [if_pos hclosed] at h
      cases h
      exact absurd hclean (fail_errors_ne_nil _ _)
    · rw [if_neg hclosed] at h
      cases h
      exact ⟨hclean, .closes hkind hkey hget (by simpa using hclosed)⟩

theorem messageDelta_clean (hkind : e.kind = .str "message_delta")
    (h : s.messageDelta e.fields = .ok s') (hclean : s'.errors = []) :
    s.errors = [] ∧ CleanStep s e s' := by
  unfold MessageState.messageDelta at h
  obtain ⟨usage, -, h⟩ := Except.bind_eq_ok_iff.1 h
  obtain ⟨delta, hdelta, h⟩ := Except.bind_eq_ok_iff.1 h
  cases h
  exact ⟨hclean, .messageDelta hkind (fieldsOf_eq_ok.1 hdelta)⟩

end Steps

variable {dumps : Value → String}

/-- A step that leaves no error comes from a state without one. -/
theorem clean_step {s s' : MessageState} {e : Event} (h : s.step dumps e = .ok s')
    (hclean : s'.errors = []) : s.errors = [] ∧ s.terminal = false ∧ e.data.isObject = true ∧
      e.kind ≠ .str "error" ∧ CleanStep s e s' := by
  unfold MessageState.step at h
  split at h
  · rename_i fields hdata
    have hfields : e.fields = fields := by rw [Event.fields, hdata]
    have hobject : e.data.isObject = true := by
      rw [hdata]
      rfl
    subst hfields
    change (if s.terminal = true then _ else if e.kind = .str "error" then _ else _) = _ at h
    by_cases hterminal : s.terminal = true
    · rw [if_pos hterminal] at h
      cases h
      exact absurd hclean (fail_errors_ne_nil _ _)
    rw [if_neg hterminal] at h
    by_cases hnoError : e.kind = .str "error"
    · rw [if_pos hnoError] at h
      cases h
      exact absurd hclean (fail_errors_ne_nil _ _)
    rw [if_neg hnoError] at h
    have hnot : s.terminal = false := by simpa using hterminal
    suffices hstep : s.errors = [] ∧ CleanStep s e s' from
      ⟨hstep.1, hnot, hobject, hnoError, hstep.2⟩
    change (if e.kind = .str "message_start" then _ else if e.kind = .str "content_block_start" then _
      else if e.kind = .str "content_block_delta" then _
      else if e.kind = .str "content_block_stop" then _ else if e.kind = .str "message_delta" then _
      else if e.kind = .str "message_stop" then _ else _) = _ at h
    split at h
    · rename_i hkind
      cases h
      exact ⟨hclean, .starts hkind⟩
    split at h
    · exact openBlock_clean ‹_› h hclean
    split at h
    · exact addDelta_clean ‹_› h hclean
    split at h
    · exact closeBlock_clean ‹_› h hclean
    split at h
    · exact messageDelta_clean ‹_› h hclean
    split at h
    · rename_i hkind
      have hstop : s.messageStop = { s with terminal := true } := by
        rw [MessageState.messageStop, if_neg hterminal]
      rw [hstop] at h
      cases h
      exact ⟨hclean, .stops hkind⟩
    · cases h
      refine ⟨hclean, .other ?_⟩
      simp only [List.forall_mem_cons]
      exact ⟨‹_›, ‹_›, ‹_›, ‹_›, ‹_›, ‹_›, fun _ h => (by cases h)⟩
  · cases h
    exact absurd hclean (fail_errors_ne_nil _ _)

/-! ## Blocks behind the events -/

/-- The values of a field, in the deltas of a type. -/
def pieces (dtype key : String) (deltas : List Fields) : List Value :=
  (deltas.filter fun d => fieldOr d "type" .null = .str dtype).map fun d => fieldOr d key (.str "")

theorem pieces_append (dtype key : String) (xs ys : List Fields) :
    pieces dtype key (xs ++ ys) = pieces dtype key xs ++ pieces dtype key ys := by
  rw [pieces, List.filter_append, List.map_append]
  rfl

/-- A block, after its opening and its deltas; `closedAt` holds when it was closed. -/
structure BlockOf (content : Fields) (deltas : List Fields) (closedAt : Int → Prop) (b : Block) :
    Prop where
  opened : b.content = content
  text : (pieces "text_delta" "text" deltas).foldlM pyAdd (fieldOr content "text" (.str "")) =
    .ok (b.text.getD (.str ""))
  partialJson : ∃ texts, pieces "input_json_delta" "partial_json" deltas = texts.map .str ∧
    b.partialJson = String.join texts
  closed : b.closed = b.closedAtNs.isSome
  closedAt : ∀ t, b.closedAtNs = some t ↔ closedAt t

/-- What one delta adds to a block. -/
structure Added (b : Block) (delta : Fields) (b' : Block) : Prop where
  content : b'.content = b.content
  text : (pieces "text_delta" "text" [delta]).foldlM pyAdd (b.text.getD (.str "")) =
    .ok (b'.text.getD (.str ""))
  partialJson : ∃ texts, pieces "input_json_delta" "partial_json" [delta] = texts.map .str ∧
    b'.partialJson = b.partialJson ++ String.join texts
  closed : b'.closed = b.closed
  closedAtNs : b'.closedAtNs = b.closedAtNs

theorem add_added {b b' : Block} {delta : Fields} (h : b.add delta = .ok b') :
    Added b delta b' := by
  unfold Block.add at h
  dsimp only at h
  by_cases htext : fieldOr delta "type" .null = .str "text_delta"
  · rw [if_pos htext] at h
    obtain ⟨text, hadd, h⟩ := Except.bind_eq_ok_iff.1 h
    cases h
    refine ⟨rfl, ?_, ⟨[], ?_, ?_⟩, rfl, rfl⟩
    · simp only [pieces, htext, decide_true, List.filter_cons_of_pos, List.filter_nil,
        List.map_cons, List.map_nil, List.foldlM_cons, hadd]
      rfl
    · simp [pieces, htext]
    · exact (String.append_empty).symm
  · rw [if_neg htext] at h
    have hnone : pieces "text_delta" "text" [delta] = [] := by simp [pieces, htext]
    by_cases hthink : fieldOr delta "type" .null = .str "thinking_delta"
    · rw [if_pos hthink] at h
      obtain ⟨thinking, -, h⟩ := Except.bind_eq_ok_iff.1 h
      cases h
      refine ⟨rfl, ?_, ⟨[], ?_, ?_⟩, rfl, rfl⟩
      · rw [hnone]
        rfl
      · simp [pieces, hthink]
      · exact (String.append_empty).symm
    · rw [if_neg hthink] at h
      by_cases hjson : fieldOr delta "type" .null = .str "input_json_delta"
      · rw [if_pos hjson] at h
        split at h
        · rename_i text hpartial
          cases h
          refine ⟨rfl, ?_, ⟨[text], ?_, ?_⟩, rfl, rfl⟩
          · rw [hnone]
            rfl
          · simp [pieces, hjson, hpartial]
          · simp [String.join]
        · cases h
      · rw [if_neg hjson] at h
        cases h
        refine ⟨rfl, ?_, ⟨[], ?_, ?_⟩, rfl, rfl⟩
        · rw [hnone]
          rfl
        · simp [pieces, hjson]
        · exact (String.append_empty).symm

theorem BlockOf.add {content delta : Fields} {deltas : List Fields} {closedAt : Int → Prop}
    {b b' : Block} (h : BlockOf content deltas closedAt b) (hadd : b.add delta = .ok b') :
    BlockOf content (deltas ++ [delta]) closedAt b' := by
  have hadded := add_added hadd
  obtain ⟨texts, hpieces, hpartial⟩ := h.partialJson
  obtain ⟨texts', hpieces', hpartial'⟩ := hadded.partialJson
  refine ⟨hadded.content.trans h.opened, ?_, ⟨texts ++ texts', ?_, ?_⟩, ?_, ?_⟩
  · rw [pieces_append, List.foldlM_append, h.text]
    exact hadded.text
  · rw [pieces_append, hpieces, hpieces', List.map_append]
  · rw [hpartial', hpartial, String.join_append]
  · rw [hadded.closed, hadded.closedAtNs, h.closed]
  · rw [hadded.closedAtNs]
    exact h.closedAt

/-- The blocks behind some events. -/
structure BlocksBehind (events : List Event) (blocks : FinMap Key Block) : Prop where
  keys : blocks.keys = openedKeys events
  blockOf : ∀ key content, (key, content) ∈ openings events → ∃ b, blocks.get? key = some b ∧
    BlockOf content (deltasOf events key) (fun t => (key, t) ∈ closings events) b
  unopened : ∀ key, key ∉ openedKeys events → deltasOf events key = [] ∧ key ∉ closedKeys events

section Behind

variable {events : List Event} {blocks : FinMap Key Block} {e : Event}

/-- An event that does nothing to a block. -/
theorem BlocksBehind.frame (h : BlocksBehind events blocks) (hopening : e.opening? = none)
    (hdelta : e.delta? = none) (hclosing : e.closing? = none) :
    BlocksBehind (events ++ [e]) blocks := by
  have hopenings : openings (events ++ [e]) = openings events := by
    rw [openings_snoc, hopening]
    exact List.append_nil _
  have hclosings : closings (events ++ [e]) = closings events := by
    rw [closings_snoc, hclosing]
    exact List.append_nil _
  have hdeltas : ∀ key, deltasOf (events ++ [e]) key = deltasOf events key := by
    intro key
    rw [deltasOf_snoc, hdelta]
    exact List.append_nil _
  refine ⟨?_, ?_, ?_⟩
  · rw [openedKeys, hopenings]
    exact h.keys
  · rw [hopenings, hclosings]
    simp only [hdeltas]
    exact h.blockOf
  · rw [openedKeys, closedKeys, hopenings, hclosings]
    simp only [hdeltas]
    exact h.unopened

theorem BlocksBehind.opens (h : BlocksBehind events blocks) {key : Key} {content : Fields}
    (hopening : e.opening? = some (key, content)) (hdelta : e.delta? = none)
    (hclosing : e.closing? = none) (hfresh : blocks.get? key = none) :
    BlocksBehind (events ++ [e]) (blocks.insert key (Block.new content)) := by
  have hopenings : openings (events ++ [e]) = openings events ++ [(key, content)] := by
    rw [openings_snoc, hopening]
    rfl
  have hclosings : closings (events ++ [e]) = closings events := by
    rw [closings_snoc, hclosing]
    exact List.append_nil _
  have hdeltas : ∀ key, deltasOf (events ++ [e]) key = deltasOf events key := by
    intro key
    rw [deltasOf_snoc, hdelta]
    exact List.append_nil _
  have hkeys : openedKeys (events ++ [e]) = openedKeys events ++ [key] := by
    rw [openedKeys, hopenings, List.map_append]
    rfl
  have hnew : key ∉ openedKeys events := by
    rw [← h.keys]
    exact FinMap.not_mem_keys.2 hfresh
  refine ⟨?_, fun k c hin => ?_, fun k hk => ?_⟩
  · rw [FinMap.keys_insert, if_neg (h.keys ▸ hnew), h.keys, hkeys]
  · rw [hopenings, List.mem_append, List.mem_singleton] at hin
    rw [hdeltas, hclosings]
    rcases hin with hin | hin
    · have hne : key ≠ k := by
        rintro rfl
        exact hnew (List.mem_map_of_mem hin)
      rw [FinMap.get?_insert_ne _ _ hne]
      exact h.blockOf k c hin
    · cases hin
      obtain ⟨hnone, hunclosed⟩ := h.unopened _ hnew
      refine ⟨_, FinMap.get?_insert_self _ _ _, rfl, ?_, ⟨[], ?_, rfl⟩, rfl, fun t => ?_⟩
      · rw [hnone]
        rfl
      · rw [hnone]
        rfl
      · refine iff_of_false (fun h => (by cases h)) fun hin => hunclosed ?_
        exact List.mem_map_of_mem hin
  · rw [hkeys, List.mem_append, not_or] at hk
    rw [hdeltas, closedKeys, hclosings]
    exact h.unopened k hk.1

theorem BlocksBehind.delta (h : BlocksBehind events blocks) {key : Key} {delta : Fields}
    (hopening : e.opening? = none) (hdelta : e.delta? = some (key, delta))
    (hclosing : e.closing? = none) {b b' : Block} (hget : blocks.get? key = some b)
    (hadd : b.add delta = .ok b') : BlocksBehind (events ++ [e]) (blocks.insert key b') := by
  have hopenings : openings (events ++ [e]) = openings events := by
    rw [openings_snoc, hopening]
    exact List.append_nil _
  have hclosings : closings (events ++ [e]) = closings events := by
    rw [closings_snoc, hclosing]
    exact List.append_nil _
  have hin : key ∈ blocks.keys := FinMap.mem_keys_of_get? hget
  have hother : ∀ k, key ≠ k → deltasOf (events ++ [e]) k = deltasOf events k := by
    intro k hk
    rw [deltasOf_snoc, hdelta]
    simp [Option.filter, hk]
  have hsame : deltasOf (events ++ [e]) key = deltasOf events key ++ [delta] := by
    rw [deltasOf_snoc, hdelta]
    simp [Option.filter]
  refine ⟨?_, fun k c hc => ?_, fun k hk => ?_⟩
  · rw [FinMap.keys_insert, if_pos hin, h.keys, openedKeys, openedKeys, hopenings]
  · rw [hopenings] at hc
    obtain ⟨b₀, hget₀, hof⟩ := h.blockOf k c hc
    rw [hclosings]
    by_cases hk : key = k
    · subst hk
      rw [hget] at hget₀
      cases hget₀
      rw [hsame]
      exact ⟨b', FinMap.get?_insert_self _ _ _, hof.add hadd⟩
    · rw [hother k hk, FinMap.get?_insert_ne _ _ hk]
      exact ⟨b₀, hget₀, hof⟩
  · have hopened : openedKeys (events ++ [e]) = openedKeys events :=
      congrArg (List.map Prod.fst) hopenings
    rw [hopened, ← h.keys] at hk
    have hne : key ≠ k := by
      rintro rfl
      exact hk hin
    rw [h.keys] at hk
    rw [hother k hne, closedKeys, hclosings]
    exact h.unopened k hk

theorem BlocksBehind.closes (h : BlocksBehind events blocks) {key : Key} {at' : Int}
    (hopening : e.opening? = none) (hdelta : e.delta? = none)
    (hclosing : e.closing? = some (key, at')) {b : Block} (hget : blocks.get? key = some b)
    (hopen : b.closed = false) : BlocksBehind (events ++ [e])
      (blocks.insert key { b with closed := true, closedAtNs := some at' }) := by
  have hopenings : openings (events ++ [e]) = openings events := by
    rw [openings_snoc, hopening]
    exact List.append_nil _
  have hclosings : closings (events ++ [e]) = closings events ++ [(key, at')] := by
    rw [closings_snoc, hclosing]
    rfl
  have hdeltas : ∀ key, deltasOf (events ++ [e]) key = deltasOf events key := by
    intro key
    rw [deltasOf_snoc, hdelta]
    exact List.append_nil _
  have hin : key ∈ blocks.keys := FinMap.mem_keys_of_get? hget
  refine ⟨?_, fun k c hc => ?_, fun k hk => ?_⟩
  · rw [FinMap.keys_insert, if_pos hin, h.keys, openedKeys, openedKeys, hopenings]
  · rw [hopenings] at hc
    obtain ⟨b₀, hget₀, hof⟩ := h.blockOf k c hc
    rw [hdeltas]
    by_cases hk : key = k
    · subst hk
      rw [hget] at hget₀
      cases hget₀
      refine ⟨_, FinMap.get?_insert_self _ _ _, hof.opened, hof.text, hof.partialJson, rfl, ?_⟩
      have hnone : b.closedAtNs = none := by
        rw [← Option.not_isSome_iff_eq_none, ← hof.closed, hopen]
        decide
      intro t
      have hbefore : (key, t) ∉ closings events := by
        rw [← hof.closedAt t, hnone]
        simp
      rw [hclosings, List.mem_append, List.mem_singleton, or_iff_right hbefore]
      simp [eq_comm]
    · rw [FinMap.get?_insert_ne _ _ hk]
      refine ⟨b₀, hget₀, hof.opened, hof.text, hof.partialJson, hof.closed, fun t => ?_⟩
      rw [hof.closedAt, hclosings, List.mem_append, List.mem_singleton]
      simp [Ne.symm hk]
  · have hopened : openedKeys (events ++ [e]) = openedKeys events :=
      congrArg (List.map Prod.fst) hopenings
    rw [hopened, ← h.keys] at hk
    have hne : k ≠ key := by
      rintro rfl
      exact hk hin
    rw [h.keys] at hk
    obtain ⟨hnone, hunclosed⟩ := h.unopened k hk
    refine ⟨(hdeltas k).trans hnone, ?_⟩
    rw [closedKeys, hclosings, List.map_append, List.mem_append]
    exact not_or.2 ⟨hunclosed, by simpa using hne⟩

end Behind

/-! ## The whole run -/

/-- What an event must be after the events before it. -/
structure Admissible (pre : List Event) (e : Event) : Prop where
  object : e.data.isObject = true
  beforeStop : ∀ e' ∈ pre, e'.kind ≠ .str "message_stop"
  noError : e.kind ≠ .str "error"
  fresh : e.kind = .str "content_block_start" → ∃ key, e.key = .ok key ∧ key ∉ openedKeys pre
  opened : e.kind = .str "content_block_delta" ∨ e.kind = .str "content_block_stop" →
    ∃ key, e.key = .ok key ∧ key ∈ openedKeys pre ∧ key ∉ closedKeys pre

/-- The state behind events that gave no error. -/
structure Behind (events : List Event) (s : MessageState) : Prop where
  starts : s.starts = events.countP fun e => e.kind = .str "message_start"
  terminal : s.terminal = true ↔ ∃ e ∈ events, e.kind = .str "message_stop"
  blocks : BlocksBehind events s.blocks
  reason : s.stopReason = (stopReasons events).getLast?.getD .null
  admissible : ∀ pre e post, events = pre ++ e :: post → Admissible pre e

theorem behind_new : Behind [] .new := by
  refine ⟨rfl, iff_of_false nofun nofun, ⟨rfl, nofun, fun _ _ => ⟨rfl, nofun⟩⟩, rfl, ?_⟩
  intro pre e post h
  simp at h

/-- A block that a step may write to is open. -/
theorem BlocksBehind.isOpen {events : List Event} {blocks : FinMap Key Block}
    (h : BlocksBehind events blocks) {key : Key} {b : Block} (hget : blocks.get? key = some b)
    (hopen : b.closed = false) : key ∈ openedKeys events ∧ key ∉ closedKeys events := by
  have hin : key ∈ openedKeys events := h.keys ▸ FinMap.mem_keys_of_get? hget
  obtain ⟨⟨key, content⟩, hc, rfl⟩ := List.mem_map.1 hin
  obtain ⟨b₀, hget₀, hof⟩ := h.blockOf key content hc
  rw [hget] at hget₀
  cases hget₀
  refine ⟨hin, fun hclosed => ?_⟩
  obtain ⟨⟨key', t⟩, ht, hkey⟩ := List.mem_map.1 hclosed
  cases hkey
  have hsome := (hof.closedAt t).2 ht
  rw [hof.closed, hsome] at hopen
  cases hopen

/-- A condition on every event and those before it, with one event more. -/
theorem forall_split_snoc {α : Type} {P : List α → α → Prop} {xs : List α} {x : α}
    (h : ∀ pre e post, xs = pre ++ e :: post → P pre e) (hx : P xs x) :
    ∀ pre e post, xs ++ [x] = pre ++ e :: post → P pre e := by
  intro pre e post hsplit
  rcases List.eq_nil_or_concat' post with rfl | ⟨post, last, rfl⟩
  · obtain ⟨rfl, hlast⟩ := List.append_inj' hsplit rfl
    cases hlast
    exact hx
  · have hassoc : pre ++ e :: (post ++ [last]) = (pre ++ e :: post) ++ [last] := by simp
    rw [hassoc] at hsplit
    exact h pre e post (List.append_inj' hsplit rfl).1

section Kinds

variable {e : Event}

theorem opening?_eq_none (h : e.kind ≠ .str "content_block_start") : e.opening? = none := if_neg h

theorem delta?_eq_none (h : e.kind ≠ .str "content_block_delta") : e.delta? = none := if_neg h

theorem closing?_eq_none (h : e.kind ≠ .str "content_block_stop") : e.closing? = none := if_neg h

theorem stopReason?_eq_none (h : e.kind ≠ .str "message_delta") : e.stopReason? = none := if_neg h

theorem opening?_eq_some (h : e.kind = .str "content_block_start") {key : Key} {content : Fields}
    (hkey : e.key = .ok key) (hcontent : fieldOr e.fields "content_block" (.dict []) = .dict content) :
    e.opening? = some (key, content) := by
  rw [Event.opening?, if_pos h, hkey, hcontent]

theorem delta?_eq_some (h : e.kind = .str "content_block_delta") {key : Key} {delta : Fields}
    (hkey : e.key = .ok key) (hdelta : fieldOr e.fields "delta" (.dict []) = .dict delta) :
    e.delta? = some (key, delta) := by
  rw [Event.delta?, if_pos h, hkey, hdelta]

theorem closing?_eq_some (h : e.kind = .str "content_block_stop") {key : Key}
    (hkey : e.key = .ok key) : e.closing? = some (key, e.atNs) := by
  rw [Event.closing?, if_pos h, hkey]

theorem stopReason?_eq (h : e.kind = .str "message_delta") {delta : Fields}
    (hdelta : orEmpty (fieldOr e.fields "delta" .null) = .dict delta) :
    e.stopReason? = (some (fieldOr delta "stop_reason" .null)).filter Value.truthy := by
  rw [Event.stopReason?, if_pos h, hdelta]

end Kinds

/-- **One step** that adds no error. -/
theorem Behind.step {events : List Event} {s s' : MessageState} {e : Event} (h : Behind events s)
    (hnot : s.terminal = false) (hobject : e.data.isObject = true)
    (hnoError : e.kind ≠ .str "error") (hstep : CleanStep s e s') : Behind (events ++ [e]) s' := by
  have hbefore : ∀ e' ∈ events, e'.kind ≠ .str "message_stop" := by
    intro e' he' hkind
    rw [h.terminal.2 ⟨e', he', hkind⟩] at hnot
    cases hnot
  have hcount : (events ++ [e]).countP (fun e => e.kind = .str "message_start") =
      s.starts + if e.kind = .str "message_start" then 1 else 0 := by
    rw [List.countP_append, h.starts, List.countP_singleton]
    simp
  have hsameCount : e.kind ≠ .str "message_start" →
      s.starts = (events ++ [e]).countP fun e => e.kind = .str "message_start" := by
    intro hkind
    rw [hcount, if_neg hkind, Nat.add_zero]
  have hstops : e.kind ≠ .str "message_stop" →
      (s.terminal = true ↔ ∃ e' ∈ events ++ [e], e'.kind = .str "message_stop") := by
    refine fun hkind => iff_of_false (by simp [hnot]) ?_
    rintro ⟨e', he', hstop⟩
    rcases List.mem_append.1 he' with hin | hin
    · exact hbefore e' hin hstop
    · cases List.mem_singleton.1 hin
      exact hkind hstop
  have hreason : e.kind ≠ .str "message_delta" →
      s.stopReason = (stopReasons (events ++ [e])).getLast?.getD .null := by
    intro hkind
    rw [stopReasons_snoc, stopReason?_eq_none hkind, h.reason]
    exact congrArg (fun xs => (List.getLast? xs).getD Value.null) (List.append_nil _).symm
  have hframe : e.kind ≠ .str "content_block_start" → e.kind ≠ .str "content_block_delta" →
      e.kind ≠ .str "content_block_stop" → BlocksBehind (events ++ [e]) s.blocks :=
    fun h₁ h₂ h₃ =>
      h.blocks.frame (opening?_eq_none h₁) (delta?_eq_none h₂) (closing?_eq_none h₃)
  have hadmissible : (e.kind = .str "content_block_start" →
        ∃ key, e.key = .ok key ∧ key ∉ openedKeys events) →
      (e.kind = .str "content_block_delta" ∨ e.kind = .str "content_block_stop" →
        ∃ key, e.key = .ok key ∧ key ∈ openedKeys events ∧ key ∉ closedKeys events) →
      ∀ pre e' post, events ++ [e] = pre ++ e' :: post → Admissible pre e' :=
    fun hfresh hopened => forall_split_snoc h.admissible ⟨hobject, hbefore, hnoError, hfresh, hopened⟩
  cases hstep with
  | starts hkind =>
    refine ⟨?_, hstops (by simp [hkind]), hframe (by simp [hkind]) (by simp [hkind])
      (by simp [hkind]), hreason (by simp [hkind]), hadmissible (by simp [hkind]) (by simp [hkind])⟩
    rw [hcount, if_pos hkind]
  | @opens key content _ hkind hkey hcontent hfresh =>
    refine ⟨hsameCount (by simp [hkind]), hstops (by simp [hkind]), ?_, hreason (by simp [hkind]),
      hadmissible (fun _ => ⟨key, hkey, ?_⟩) (by simp [hkind])⟩
    · exact h.blocks.opens (opening?_eq_some hkind hkey hcontent) (delta?_eq_none (by simp [hkind]))
        (closing?_eq_none (by simp [hkind])) hfresh
    · rw [← h.blocks.keys]
      exact FinMap.not_mem_keys.2 hfresh
  | @delta key _ _ _ _ hkind hkey hdelta hget hopen hadd =>
    refine ⟨hsameCount (by simp [hkind]), hstops (by simp [hkind]), ?_, hreason (by simp [hkind]),
      hadmissible (by simp [hkind]) fun _ => ⟨key, hkey, h.blocks.isOpen hget hopen⟩⟩
    exact h.blocks.delta (opening?_eq_none (by simp [hkind])) (delta?_eq_some hkind hkey hdelta)
      (closing?_eq_none (by simp [hkind])) hget hadd
  | @closes key _ hkind hkey hget hopen =>
    refine ⟨hsameCount (by simp [hkind]), hstops (by simp [hkind]), ?_, hreason (by simp [hkind]),
      hadmissible (by simp [hkind]) fun _ => ⟨key, hkey, h.blocks.isOpen hget hopen⟩⟩
    exact h.blocks.closes (opening?_eq_none (by simp [hkind])) (delta?_eq_none (by simp [hkind]))
      (closing?_eq_some hkind hkey) hget hopen
  | @messageDelta _ delta hkind hdelta =>
    refine ⟨hsameCount (by simp [hkind]), hstops (by simp [hkind]), hframe (by simp [hkind])
      (by simp [hkind]) (by simp [hkind]), ?_, hadmissible (by simp [hkind]) (by simp [hkind])⟩
    rw [stopReasons_snoc, stopReason?_eq hkind hdelta, List.getLast?_append, pyOr]
    by_cases htruthy : (fieldOr delta "stop_reason" .null).truthy = true
    · simp [Option.filter, htruthy]
    · simp [Option.filter, htruthy, h.reason]
  | stops hkind =>
    refine ⟨hsameCount (by simp [hkind]), iff_of_true rfl ⟨e, by simp, hkind⟩,
      hframe (by simp [hkind]) (by simp [hkind]) (by simp [hkind]), hreason (by simp [hkind]),
      hadmissible (by simp [hkind]) (by simp [hkind])⟩
  | other hkind =>
    have hne : ∀ kind ∈ ["message_start", "content_block_start", "content_block_delta",
      "content_block_stop", "message_delta", "message_stop"], e.kind ≠ .str kind := hkind
    simp only [List.forall_mem_cons] at hne
    obtain ⟨hstart, hopen, hdelta, hclose, hmessage, hstop, -⟩ := hne
    exact ⟨hsameCount hstart, hstops hstop, hframe hopen hdelta hclose, hreason hmessage,
      hadmissible (fun he => absurd he hopen) fun he => he.elim (absurd · hdelta) (absurd · hclose)⟩

/-- **The state behind events that gave no error.** -/
theorem behind_of_clean {events : List Event} {s : MessageState}
    (h : events.foldlM (MessageState.step dumps) .new = .ok s) (hclean : s.errors = []) :
    Behind events s := by
  induction events using List.reverseRecOn generalizing s with
  | nil =>
    cases h
    exact behind_new
  | append_singleton events e ih =>
    rw [List.foldlM_append] at h
    obtain ⟨s₀, hrun, h⟩ := Except.bind_eq_ok_iff.1 h
    rw [List.foldlM_cons] at h
    obtain ⟨s₁, hstep, h⟩ := Except.bind_eq_ok_iff.1 h
    cases h
    obtain ⟨hclean₀, hnot, hobject, hnoError, hcase⟩ := clean_step hstep hclean
    exact (ih hrun hclean₀).step hnot hobject hnoError hcase

end ReedCode.ThinkingStudy
