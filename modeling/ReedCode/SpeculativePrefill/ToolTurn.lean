import ReedCode.SpeculativePrefill.Fragments

/-!
# Accepted tool turns

The grammar of a completed tool turn, stated over the calls as a whole, and the end of a run.

* `completed_tool_turn` — a run ends with a message exactly if its calls are a turn with text in
  its text fields; the message has the concatenated fragments, however they were cut;
* `contentParts_rejected` — a turn whose content is an array of parts is rejected.
-/

set_option autoImplicit false

namespace ReedCode.SpeculativePrefill

/-! ## The grammar -/

/-- The rules about whole frames: nothing is rejected, every frame with a choice has only one,
plain and of index 0, and the last and only the last has a reason, which is `tool_calls`. -/
structure Framed (calls : List Call) : Prop where
  notRejected : Call.reject ∉ calls
  single : ∀ frame ∈ frames calls, ∃ choice, frame.choices = [choice] ∧ choice.index = 0
  plain : ∀ choice ∈ choices calls, Plain choice.delta
  reason : ∃ before last, choices calls = before ++ [last] ∧
    (∀ choice ∈ before, choice.finishReason = none) ∧
    last.finishReason = some (.str "tool_calls")

/-- Text where text is given. -/
def Texts (calls : List Call) : Prop := ∀ choice ∈ choices calls, PlainText choice.delta

instance (calls : List Call) : Decidable (Texts calls) :=
  inferInstanceAs (Decidable (∀ choice ∈ choices calls, PlainText choice.delta))

def indices (cs : List Choice) : List Nat := (chunks cs).map (·.index)

/-- The chunks of one index have an id and a name, and arguments that parse as an object. -/
structure CompleteCall (fromStr : String → Option Value) (incomings : List Value) : Prop where
  id : ∃ id, Value.str id ∈ givenIds incomings ∧ id ≠ ""
  name : ∃ name, Value.str name ∈ givenNames incomings ∧ name ≠ ""
  arguments : ∃ v, fromStr (String.join (argumentFragments incomings)) = some v ∧ v.isObject = true

/-- **A completed tool turn.** -/
structure Turn (fromStr : String → Option Value) (calls : List Call) : Prop extends Framed calls where
  indices : ∃ n, 0 < n ∧ ∀ index, index ∈ indices (choices calls) ↔ index < n
  agreeing : ∀ index, Agreeing (chunksAt index (chunks (choices calls)))
  complete : ∀ index ∈ SpeculativePrefill.indices (choices calls),
    CompleteCall fromStr (chunksAt index (chunks (choices calls)))
  distinct : ∀ i j id, Value.str id ∈ givenIds (chunksAt i (chunks (choices calls))) →
    Value.str id ∈ givenIds (chunksAt j (chunks (choices calls))) → i = j

/-- The call that the chunks of one index make. -/
def callAt (cs : List Choice) (index : Nat) : ToolCall where
  id := ((givenIds (chunksAt index (chunks cs))).head?.bind Value.asStr?).getD ""
  name := ((givenNames (chunksAt index (chunks cs))).head?.bind Value.asStr?).getD ""
  arguments := String.join (argumentFragments (chunksAt index (chunks cs)))

/-- The JSON object of a complete call. -/
def ToolCall.tool (call : ToolCall) : Tool :=
  ⟨some (.str call.id), .str "function", some (.str call.name), call.arguments⟩

/-- Assembled messages deserialise, into the fields they were put together from. -/
structure Protocol.Faithful {M : Type} (P : Protocol M) : Prop where
  reads : ∀ (content reasoning : Option String) (calls : List ToolCall), calls ≠ [] →
    ∃ m, P.fromValue (message content reasoning (calls.map (·.tool))) = some m ∧
      P.content m = content ∧ P.reasoning m = reasoning ∧ P.toolCalls m = calls

def ToolCall.Complete (fromStr : String → Option Value) (call : ToolCall) : Prop :=
  call.id ≠ "" ∧ call.name ≠ "" ∧ ∃ v, fromStr call.arguments = some v ∧ v.isObject = true

/-! ## The loop of `finish` -/

variable {fromStr : String → Option Value}

theorem asStr?_eq_some {v : Value} {s : String} : v.asStr? = some s ↔ v = .str s := by
  cases v <;> simp [Value.asStr?]

theorem Tool.complete_eq_some {tool : Tool} {ids : List String} {expected index : Nat} {id : String} :
    tool.complete fromStr ids expected index = some id ↔ ∃ call : ToolCall, tool = call.tool ∧
      call.id = id ∧ index = expected ∧ call.Complete fromStr ∧ id ∉ ids := by
  unfold Tool.complete
  simp only [Option.bind_eq_bind, Option.bind_eq_some_iff, asStr?_eq_some]
  constructor
  · rintro ⟨id', ⟨_, hid, rfl⟩, name, ⟨_, hname, rfl⟩, h⟩
    split at h
    · cases h
    · rename_i hguard
      cases h
      simp only [Bool.or_eq_true, decide_eq_true_eq, not_or, Bool.not_eq_true, ne_eq,
        Classical.not_not, String.isEmpty_eq_false_iff, Bool.not_eq_true', Bool.not_eq_false,
        Option.any_eq_true, List.contains_eq_mem] at hguard
      obtain ⟨⟨⟨⟨⟨hindex, hid'⟩, hname'⟩, hnew⟩, htype⟩, hargs⟩ := hguard
      refine ⟨⟨id, name, tool.arguments⟩, ?_, rfl, hindex, ⟨hid', hname', hargs⟩, hnew⟩
      cases tool
      simp only [ToolCall.tool, Tool.mk.injEq, and_true] at hid hname htype ⊢
      exact ⟨hid, htype, hname⟩
  · rintro ⟨call, rfl, rfl, rfl, ⟨hid, hname, hargs⟩, hnew⟩
    refine ⟨call.id, ⟨_, rfl, rfl⟩, call.name, ⟨_, rfl, rfl⟩, if_neg ?_⟩
    simp only [Bool.or_eq_true, decide_eq_true_eq, not_or, Bool.not_eq_true, ne_eq,
      Classical.not_not, String.isEmpty_eq_false_iff, Bool.not_eq_true', Bool.not_eq_false,
      Option.any_eq_true, List.contains_eq_mem]
    exact ⟨⟨⟨⟨⟨trivial, hid⟩, hname⟩, hnew⟩, rfl⟩, hargs⟩

/-- The loop accepts complete calls with new and distinct ids, at their positions. -/
theorem allComplete_iff : ∀ {rows : List (Nat × Tool)} {ids : List String} {expected : Nat},
    allComplete fromStr ids expected rows = true ↔ ∃ calls : List ToolCall,
      rows = (calls.zipIdx expected).map (fun p => (p.2, p.1.tool)) ∧
      (∀ call ∈ calls, call.Complete fromStr) ∧ (calls.map (·.id)).Nodup ∧
      ∀ call ∈ calls, call.id ∉ ids
  | [], ids, expected => by
    simp only [allComplete, true_iff]
    exact ⟨[], rfl, nofun, List.nodup_nil, nofun⟩
  | (index, tool) :: rest, ids, expected => by
    unfold allComplete
    constructor
    · intro h
      split at h
      · cases h
      · rename_i id hcomplete
        obtain ⟨call, rfl, rfl, rfl, hcall, hnew⟩ := Tool.complete_eq_some.1 hcomplete
        obtain ⟨calls, rfl, hcalls, hn, hdisjoint⟩ := allComplete_iff.1 h
        refine ⟨call :: calls, rfl, List.forall_mem_cons.2 ⟨hcall, hcalls⟩, ?_, ?_⟩
        · refine List.nodup_cons.2 ⟨fun hmem => ?_, hn⟩
          obtain ⟨c, hc, heq⟩ := List.mem_map.1 hmem
          exact hdisjoint c hc (heq ▸ List.mem_cons_self)
        · refine List.forall_mem_cons.2 ⟨hnew, fun c hc hmem => ?_⟩
          exact hdisjoint c hc (List.mem_cons_of_mem _ hmem)
    · rintro ⟨calls, hrows, hcalls, hn, hdisjoint⟩
      cases calls with
      | nil => cases hrows
      | cons call calls =>
        rw [List.zipIdx_cons, List.map_cons, List.cons.injEq, Prod.mk.injEq] at hrows
        obtain ⟨⟨rfl, rfl⟩, rfl⟩ := hrows
        rw [List.forall_mem_cons] at hcalls hdisjoint
        rw [List.map_cons, List.nodup_cons] at hn
        rw [Tool.complete_eq_some.2 ⟨call, rfl, rfl, rfl, hcalls.1, hdisjoint.1⟩]
        refine allComplete_iff.2 ⟨calls, rfl, hcalls.2, hn.2, fun c hc => ?_⟩
        rw [List.mem_cons, not_or]
        exact ⟨fun heq => hn.1 (heq ▸ List.mem_map_of_mem hc), hdisjoint.2 c hc⟩

/-! ## The rows of the accumulator -/

theorem head?_of_mem {xs : List Value} (h : AllEqual xs) {a : Value} (ha : a ∈ xs) :
    xs.head? = some a := by
  cases xs with
  | nil => cases ha
  | cons x xs => rw [List.head?_cons, h x List.mem_cons_self a ha]

/-- A tool that holds complete chunks is the call they make. -/
theorem Tool.Of.tool_callAt {tool : Tool} {cs : List Choice} {index : Nat}
    (hof : tool.Of (chunksAt index (chunks cs))) (hagree : Agreeing (chunksAt index (chunks cs)))
    (hcomplete : CompleteCall fromStr (chunksAt index (chunks cs))) :
    tool = (callAt cs index).tool ∧ (callAt cs index).Complete fromStr := by
  obtain ⟨⟨id, hid, hid'⟩, ⟨name, hname, hname'⟩, hargs⟩ := hcomplete
  have h₁ := head?_of_mem hagree.ids hid
  have h₂ := head?_of_mem hagree.names hname
  have hcall : callAt cs index = ⟨id, name, tool.arguments⟩ := by
    rw [callAt, h₁, h₂, hof.arguments]
    rfl
  constructor
  · rw [hcall]
    cases tool
    simp only [ToolCall.tool, Tool.mk.injEq, and_true]
    exact ⟨hof.id.trans h₁, hof.type, hof.name.trans h₂⟩
  · rw [hcall]
    exact ⟨hid', hname', by rw [hof.arguments]; exact hargs⟩

theorem Holds.mem_indices {cs : List Choice} {s : CompletedToolTurn} (h : Holds cs s)
    (index : Nat) : index ∈ indices cs ↔ index ∈ s.rows.map (·.1) := by
  have hmem : index ∈ s.rows.map (·.1) ↔ index ∈ s.tools.keys := by
    simp [CompletedToolTurn.rows, FinMap.keys]
  rw [hmem, FinMap.mem_keys]
  exact (h.tools.present index).symm

theorem Holds.row {cs : List Choice} {s : CompletedToolTurn} (h : Holds cs s) {row : Nat × Tool}
    (hrow : row ∈ s.rows) : row.2.Of (chunksAt row.1 (chunks cs)) := by
  rw [CompletedToolTurn.rows, List.mem_insertionSort] at hrow
  have hof := h.tools.holds row.1
  rwa [FinMap.mem_entries.1 (show (row.1, row.2) ∈ s.tools.entries from hrow),
    Option.getD_some] at hof

/-- Rows of the indices below `n` stand in order. -/
theorem rows_of_indices {s : CompletedToolTurn} {n : Nat}
    (h : ∀ index, index ∈ s.rows.map (·.1) ↔ index < n) :
    s.rows.map (·.1) = List.range n := by
  have hnodup : (s.rows.map (·.1)).Nodup :=
    ((List.perm_insertionSort _ s.tools.entries).map _).nodup_iff.2 s.tools.nodup
  have hsorted : (s.rows.map (·.1)).Pairwise (· ≤ ·) := by
    rw [List.pairwise_map]
    exact List.pairwise_insertionSort (fun a b : Nat × Tool => a.1 ≤ b.1) s.tools.entries
  have hperm : (s.rows.map (·.1)).Perm (List.range n) :=
    (List.perm_ext_iff_of_nodup hnodup List.nodup_range).2 fun index => by
      rw [h, List.mem_range]
  exact hperm.eq_of_pairwise (fun _ _ _ _ => Nat.le_antisymm) hsorted List.pairwise_le_range

theorem indices_rows (toolCalls : List ToolCall) :
    ((toolCalls.zipIdx 0).map fun p => (p.2, p.1.tool)).map (·.1) = List.range toolCalls.length := by
  rw [List.map_map, List.range_eq_range']
  exact List.zipIdx_map_snd 0 toolCalls

theorem tools_rows (toolCalls : List ToolCall) :
    ((toolCalls.zipIdx 0).map fun p => (p.2, p.1.tool)).map (·.2) = toolCalls.map (·.tool) := by
  rw [List.map_map]
  have h := congrArg (List.map ToolCall.tool) (List.zipIdx_map_fst 0 toolCalls)
  rwa [List.map_map] at h

/-- The rows of a turn are its calls, by index. -/
theorem Holds.rows_eq {calls : List Call} {s : CompletedToolTurn} {n : Nat}
    (h : Holds (choices calls) s) (ht : Turn fromStr calls)
    (hn : ∀ index, index ∈ indices (choices calls) ↔ index < n) :
    s.rows = (((List.range n).map (callAt (choices calls))).zipIdx 0).map
      (fun p => (p.2, p.1.tool)) := by
  have hfst : s.rows.map (·.1) = List.range n :=
    rows_of_indices fun index => by rw [← h.mem_indices, hn]
  have hlen : s.rows.length = n := by
    have := congrArg List.length hfst
    simpa using this
  refine List.ext_getElem (by simp [hlen]) fun i hi _ => ?_
  have hfst' : s.rows[i].1 = i := by
    have hget : (s.rows.map (·.1))[i]? = some i := by
      rw [hfst, List.getElem?_range (by rwa [← hlen])]
    simpa [List.getElem?_eq_getElem, hi] using hget
  have hmem : s.rows[i] ∈ s.rows := List.getElem_mem hi
  have hof := h.row hmem
  rw [hfst'] at hof
  have htool := (hof.tool_callAt (h.agreeing i)
    (ht.complete i ((hn i).2 (by omega)))).1
  simp only [List.getElem_map, List.getElem_zipIdx, List.getElem_range, Nat.zero_add]
  exact Prod.ext hfst' htool

/-- A turn of frames with text keeps the accumulator clean. -/
theorem Framed.clean {calls : List Call} (h : Framed calls) (ht : Texts calls)
    (hagree : ∀ index, Agreeing (chunksAt index (chunks (choices calls)))) : Clean calls := by
  obtain ⟨before, last, hchoices, hbefore, hlast⟩ := h.reason
  refine ⟨h.notRejected, h.single, h.plain, ht, ?_, ?_, hagree⟩
  · rw [hchoices, List.dropLast_concat]
    exact hbefore
  · intro choice hc r hr
    rw [hchoices, List.getLast?_concat, Option.some.injEq] at hc
    rw [← hc, hlast, Option.some.injEq] at hr
    exact hr.symm

/-- The run of clean calls holds their fragments. -/
theorem holds_of_clean {calls : List Call} (h : Clean calls) : Holds (choices calls) (run calls) := by
  rcases run_spec calls with ⟨-, hholds⟩ | ⟨hnot, -⟩
  · exact hholds
  · exact absurd h hnot

variable {M : Type} {P : Protocol M}

/-- The end of a turn: its fragments are put together and deserialised. -/
theorem finish_of_turn {calls : List Call} {n : Nat} (ht : Turn P.fromStr calls) (htext : Texts calls)
    (hpos : 0 < n) (hn : ∀ index, index ∈ indices (choices calls) ↔ index < n) :
    (run calls).finish P = P.fromValue (message (joined "content" (choices calls))
      (joined "reasoning_content" (choices calls))
      (((List.range n).map (callAt (choices calls))).map (·.tool))) := by
  have hclean := ht.toFramed.clean htext ht.agreeing
  have hholds := holds_of_clean hclean
  have hrows := hholds.rows_eq ht hn
  have hfinished : (run calls).finished = true := by
    obtain ⟨before, last, hchoices, -, hlast⟩ := ht.reason
    rw [hholds.finished, hchoices, List.any_append]
    simp [hlast]
  have hne : (run calls).tools.entries.isEmpty = false := by
    rw [List.isEmpty_eq_false_iff]
    intro hempty
    have h0 : (0 : Nat) ∈ (run calls).rows.map (·.1) := (hholds.mem_indices 0).1 ((hn 0).2 hpos)
    rw [CompletedToolTurn.rows, hempty] at h0
    exact List.not_mem_nil h0
  have hall : allComplete P.fromStr [] 0 (run calls).rows = true := by
    refine allComplete_iff.2 ⟨_, hrows, ?_, ?_, fun _ _ => List.not_mem_nil⟩
    · intro call hcall
      obtain ⟨i, hi, rfl⟩ := List.mem_map.1 hcall
      have hmem := (hn i).2 (List.mem_range.1 hi)
      exact ((hholds.tools.holds i).tool_callAt (hholds.agreeing i) (ht.complete i hmem)).2
    · rw [List.map_map, List.nodup_map_iff_inj_on List.nodup_range]
      intro i hi j hj hij
      obtain ⟨⟨id, hid, -⟩, -, -⟩ := ht.complete i ((hn i).2 (List.mem_range.1 hi))
      obtain ⟨⟨id', hid', -⟩, -, -⟩ := ht.complete j ((hn j).2 (List.mem_range.1 hj))
      have h₁ : (callAt (choices calls) i).id = id := by
        rw [callAt, head?_of_mem (hholds.agreeing i).ids hid]; rfl
      have h₂ : (callAt (choices calls) j).id = id' := by
        rw [callAt, head?_of_mem (hholds.agreeing j).ids hid']; rfl
      have heq : id = id' := by rw [← h₁, ← h₂]; exact hij
      exact ht.distinct i j id hid (heq ▸ hid')
  have hvalues : (run calls).rows.map (·.2) =
      ((List.range n).map (callAt (choices calls))).map (·.tool) := by
    rw [hrows, tools_rows]
  unfold CompletedToolTurn.finish
  rw [hholds.failed, hfinished, hne, hall, hvalues, hholds.content, hholds.reasoning]
  rfl

/-- Clean calls with a reason are framed: the reason is that of the last choice. -/
theorem Clean.framed {calls : List Call} (h : Clean calls)
    (hreason : (choices calls).any (·.finishReason.isSome) = true) : Framed calls := by
  obtain ⟨choice, hchoice, hsome⟩ := List.any_eq_true.1 hreason
  have hchoices := List.dropLast_append_getLast (List.ne_nil_of_mem hchoice)
  generalize (choices calls).getLast (List.ne_nil_of_mem hchoice) = last at hchoices
  have hlast : choice = last := by
    rw [← hchoices, List.mem_append, List.mem_singleton] at hchoice
    rcases hchoice with hearly | heq
    · rw [h.earlier choice hearly] at hsome
      cases hsome
    · exact heq
  subst hlast
  obtain ⟨r, hr⟩ := Option.isSome_iff_exists.1 hsome
  have hget : (choices calls).getLast? = some choice := by
    rw [← hchoices, List.getLast?_concat]
  exact ⟨h.notRejected, h.single, h.plain, _, choice, hchoices.symm, h.earlier,
    by rw [hr, h.reason choice hget r hr]⟩

theorem mem_indices_of_given {cs : List Choice} {index : Nat} {v : Value}
    (h : v ∈ givenIds (chunksAt index (chunks cs))) : index ∈ indices cs := by
  by_contra hno
  have hempty : chunksAt index (chunks cs) = [] := by
    rw [chunksAt, List.map_eq_nil_iff, List.filter_eq_nil_iff]
    intro chunk hchunk heq
    exact hno (List.mem_map.2 ⟨chunk, hchunk, by simpa using heq⟩)
  rw [hempty] at h
  exact List.not_mem_nil h

theorem rows_eq_nil {s : CompletedToolTurn} : s.rows = [] ↔ s.tools.entries = [] := by
  have hperm := List.perm_insertionSort (fun a b : Nat × Tool => a.1 ≤ b.1) s.tools.entries
  rw [CompletedToolTurn.rows]
  exact ⟨fun h => (h ▸ hperm).nil_eq.symm, fun h => by rw [h]; rfl⟩

/-- The row of an index is the call at its position. -/
theorem Holds.call_of {cs : List Choice} {s : CompletedToolTurn} (h : Holds cs s)
    {toolCalls : List ToolCall}
    (hrows : s.rows = (toolCalls.zipIdx 0).map fun p => (p.2, p.1.tool)) {index : Nat}
    (hi : index < toolCalls.length) :
    (toolCalls.get ⟨index, hi⟩).tool.Of (chunksAt index (chunks cs)) := by
  have hmem : (index, (toolCalls.get ⟨index, hi⟩).tool) ∈ s.rows := by
    rw [hrows, List.mem_map]
    refine ⟨(toolCalls.get ⟨index, hi⟩, index), ?_, rfl⟩
    rw [List.mk_mem_zipIdx_iff_getElem?]
    exact List.getElem?_eq_getElem hi
  exact h.row hmem

/-- A run that ends with a message is one of a turn. -/
theorem turn_of_finish {calls : List Call} {m : M} (h : (run calls).finish P = some m) :
    Turn P.fromStr calls ∧ Texts calls := by
  unfold CompletedToolTurn.finish at h
  split at h
  · cases h
  rename_i hguard
  simp only [Bool.or_eq_true, not_or, Bool.not_eq_true, Bool.not_eq_true', Bool.not_eq_false,
    List.isEmpty_eq_false_iff] at hguard
  obtain ⟨⟨hfailed, hfinished⟩, hne⟩ := hguard
  split at h
  · rename_i hall
    obtain ⟨toolCalls, hrows, hcomplete, hids, -⟩ := allComplete_iff.1 hall
    rcases run_spec calls with ⟨hclean, hholds⟩ | ⟨-, hfailed'⟩
    · have hof := fun (index : Nat) (hi : index < toolCalls.length) => hholds.call_of hrows hi
      have hmem : ∀ index, index ∈ indices (choices calls) ↔ index < toolCalls.length := by
        intro index
        rw [hholds.mem_indices, hrows, indices_rows, List.mem_range]
      have hgiven : ∀ index hi, Value.str (toolCalls.get ⟨index, hi⟩).id ∈
          givenIds (chunksAt index (chunks (choices calls))) := fun index hi =>
        List.mem_of_head? (hof index hi).id.symm
      refine ⟨⟨hclean.framed (hholds.finished ▸ hfinished), ⟨toolCalls.length, ?_, hmem⟩,
        hclean.agreeing, fun index hindex => ?_, fun i j id hi hj => ?_⟩, hclean.texts⟩
      · rw [List.length_pos_iff]
        rintro rfl
        exact hne (rows_eq_nil.1 hrows)
      · have hi := (hmem index).1 hindex
        obtain ⟨hid, hname, hargs⟩ := hcomplete _ (List.get_mem toolCalls ⟨index, hi⟩)
        refine ⟨⟨_, hgiven index hi, hid⟩,
          ⟨_, List.mem_of_head? (hof index hi).name.symm, hname⟩, ?_⟩
        rw [← (hof index hi).arguments]
        exact hargs
      · -- an id given at an index is that of the call there
        have hcall : ∀ index, Value.str id ∈ givenIds (chunksAt index (chunks (choices calls))) →
            ∃ hi : index < toolCalls.length, (toolCalls.get ⟨index, hi⟩).id = id := by
          intro index hid
          have hi := (hmem index).1 (mem_indices_of_given hid)
          exact ⟨hi, Value.str.inj ((hclean.agreeing index).ids _ (hgiven index hi) _ hid)⟩
        obtain ⟨hi', hid₁⟩ := hcall i hi
        obtain ⟨hj', hid₂⟩ := hcall j hj
        have hget := List.inj_on_of_nodup_map hids (List.get_mem toolCalls ⟨i, hi'⟩)
          (List.get_mem toolCalls ⟨j, hj'⟩) (hid₁.trans hid₂.symm)
        exact congrArg Fin.val ((hids.of_map _).get_inj_iff.1 hget)
    · rw [hfailed] at hfailed'
      cases hfailed'
  · cases h

/-! ## Fragments cut in another way -/

/-- The calls deliver the same turn in other fragments: both are framed, their text fields and
the arguments of every index concatenate to the same strings, and they give the same ids, types
and names. -/
structure Refragments (calls calls' : List Call) : Prop where
  framed : Framed calls ∧ Framed calls'
  texts : Texts calls ∧ Texts calls'
  joined : ∀ key ∈ ["content", "reasoning_content"],
    joined key (choices calls) = joined key (choices calls')
  indices : ∀ index, index ∈ indices (choices calls) ↔ index ∈ indices (choices calls')
  ids : ∀ index v, v ∈ givenIds (chunksAt index (chunks (choices calls))) ↔
    v ∈ givenIds (chunksAt index (chunks (choices calls')))
  types : ∀ index v, v ∈ givenTypes (chunksAt index (chunks (choices calls))) ↔
    v ∈ givenTypes (chunksAt index (chunks (choices calls')))
  names : ∀ index v, v ∈ givenNames (chunksAt index (chunks (choices calls))) ↔
    v ∈ givenNames (chunksAt index (chunks (choices calls')))
  arguments : ∀ index,
    String.join (argumentFragments (chunksAt index (chunks (choices calls)))) =
      String.join (argumentFragments (chunksAt index (chunks (choices calls'))))

theorem Refragments.symm {calls calls' : List Call} (h : Refragments calls calls') :
    Refragments calls' calls where
  framed := h.framed.symm
  texts := h.texts.symm
  joined := fun key hkey => (h.joined key hkey).symm
  indices := fun index => (h.indices index).symm
  ids := fun index v => (h.ids index v).symm
  types := fun index v => (h.types index v).symm
  names := fun index v => (h.names index v).symm
  arguments := fun index => (h.arguments index).symm

theorem AllEqual.of_subset {xs ys : List Value} (h : AllEqual xs) (hsub : ∀ v, v ∈ ys → v ∈ xs) :
    AllEqual ys := fun a ha b hb => h a (hsub a ha) b (hsub b hb)

theorem Refragments.turn {calls calls' : List Call} (h : Refragments calls calls')
    (ht : Turn fromStr calls) : Turn fromStr calls' where
  toFramed := h.framed.2
  indices := by
    obtain ⟨n, hpos, hn⟩ := ht.indices
    exact ⟨n, hpos, fun index => (h.indices index).symm.trans (hn index)⟩
  agreeing := fun index => ⟨(ht.agreeing index).ids.of_subset fun v => (h.ids index v).2,
    (ht.agreeing index).types.of_subset fun v => (h.types index v).2,
    (ht.agreeing index).names.of_subset fun v => (h.names index v).2⟩
  complete := fun index hindex => by
    obtain ⟨⟨id, hid, hid'⟩, ⟨name, hname, hname'⟩, hargs⟩ :=
      ht.complete index ((h.indices index).2 hindex)
    exact ⟨⟨id, (h.ids index _).1 hid, hid'⟩, ⟨name, (h.names index _).1 hname, hname'⟩,
      h.arguments index ▸ hargs⟩
  distinct := fun i j id hi hj => ht.distinct i j id ((h.ids i _).2 hi) ((h.ids j _).2 hj)

/-- The call of an index does not depend on the fragments. -/
theorem Refragments.callAt_eq {calls calls' : List Call} (h : Refragments calls calls')
    (ht : Turn fromStr calls) {index : Nat} (hindex : index ∈ SpeculativePrefill.indices (choices calls)) :
    callAt (choices calls) index = callAt (choices calls') index := by
  have ht' := h.turn ht
  obtain ⟨⟨id, hid, -⟩, ⟨name, hname, -⟩, -⟩ := ht.complete index hindex
  rw [callAt, callAt, head?_of_mem (ht.agreeing index).ids hid,
    head?_of_mem (ht'.agreeing index).ids ((h.ids index _).1 hid),
    head?_of_mem (ht.agreeing index).names hname,
    head?_of_mem (ht'.agreeing index).names ((h.names index _).1 hname), h.arguments index]

theorem Refragments.finish_eq {calls calls' : List Call} (h : Refragments calls calls') :
    (run calls).finish P = (run calls').finish P := by
  by_cases ht : Turn P.fromStr calls
  · obtain ⟨n, hpos, hn⟩ := ht.indices
    have hn' : ∀ index, index ∈ SpeculativePrefill.indices (choices calls') ↔ index < n :=
      fun index => (h.indices index).symm.trans (hn index)
    have hcalls : (List.range n).map (callAt (choices calls)) =
        (List.range n).map (callAt (choices calls')) :=
      List.map_congr_left fun index hindex =>
        h.callAt_eq ht ((hn index).2 (List.mem_range.1 hindex))
    rw [finish_of_turn ht h.texts.1 hpos hn, finish_of_turn (h.turn ht) h.texts.2 hpos hn', hcalls,
      h.joined "content" (by simp), h.joined "reasoning_content" (by simp)]
  · have ht' : ¬ Turn P.fromStr calls' := fun ht' => ht (h.symm.turn ht')
    rw [Option.eq_none_iff_forall_ne_some.2 fun m hm => ht (turn_of_finish hm).1,
      Option.eq_none_iff_forall_ne_some.2 fun m hm => ht' (turn_of_finish hm).1]

/-- **A completed tool turn.**  A run ends with a message exactly if its calls are a turn with
text where text is given; the message has the fragments, concatenated in order and in the order
of the indices; and the same turn in other fragments ends with the same message. -/
theorem completed_tool_turn (hP : P.Faithful) (calls : List Call) :
    (((run calls).finish P).isSome ↔ Turn P.fromStr calls ∧ Texts calls) ∧
    (∀ m, (run calls).finish P = some m →
      P.content m = joined "content" (choices calls) ∧
      P.reasoning m = joined "reasoning_content" (choices calls) ∧
      ∃ n, (∀ index, index ∈ indices (choices calls) ↔ index < n) ∧
        P.toolCalls m = (List.range n).map (callAt (choices calls))) ∧
    ∀ calls', Refragments calls calls' → (run calls).finish P = (run calls').finish P := by
  have hfinish : Turn P.fromStr calls → Texts calls → ∃ m, (run calls).finish P = some m ∧
      P.content m = joined "content" (choices calls) ∧
      P.reasoning m = joined "reasoning_content" (choices calls) ∧
      ∃ n, (∀ index, index ∈ indices (choices calls) ↔ index < n) ∧
        P.toolCalls m = (List.range n).map (callAt (choices calls)) := by
    intro ht htext
    obtain ⟨n, hpos, hn⟩ := ht.indices
    have hne : (List.range n).map (callAt (choices calls)) ≠ [] := by
      simp only [ne_eq, List.map_eq_nil_iff, List.range_eq_nil]
      omega
    obtain ⟨m, hm, hcontent, hreasoning, hcalls⟩ := hP.reads (joined "content" (choices calls))
      (joined "reasoning_content" (choices calls)) _ hne
    exact ⟨m, (finish_of_turn ht htext hpos hn).trans hm, hcontent, hreasoning, n, hn, hcalls⟩
  refine ⟨⟨fun h => ?_, fun h => ?_⟩, fun m hm => ?_, fun calls' h => h.finish_eq⟩
  · obtain ⟨m, hm⟩ := Option.isSome_iff_exists.1 h
    exact turn_of_finish hm
  · obtain ⟨m, hm, -⟩ := hfinish h.1 h.2
    rw [hm]
    rfl
  · obtain ⟨ht, htext⟩ := turn_of_finish hm
    obtain ⟨m', hm', hrest⟩ := hfinish ht htext
    rw [hm, Option.some.injEq] at hm'
    exact hm' ▸ hrest

/-! ## A protocol, and two turns in it -/

/-- An assistant message with the fields that are read. -/
structure AssistantMessage where
  content : Option String
  reasoning : Option String
  toolCalls : List ToolCall
  deriving DecidableEq

def ToolCall.fromValue (v : Value) : Option ToolCall := do
  let id ← (v.get? "id").bind Value.asStr?
  let function ← v.get? "function"
  let name ← (function.get? "name").bind Value.asStr?
  let arguments ← (function.get? "arguments").bind Value.asStr?
  return ⟨id, name, arguments⟩

def AssistantMessage.fromValue (v : Value) : Option AssistantMessage :=
  match v.get? "tool_calls" with
  | some (.list items) => (items.mapM ToolCall.fromValue).map fun calls =>
    ⟨(v.get? "content").bind Value.asStr?, (v.get? "reasoning_content").bind Value.asStr?, calls⟩
  | _ => none

/-- A protocol whose only JSON text is a path argument. -/
def pathProtocol : Protocol AssistantMessage where
  fromStr text := if text = "\x7b\"path\": \"x\"\x7d" then some (.dict [("path", .str "x")]) else none
  fromValue := AssistantMessage.fromValue
  content := (·.content)
  reasoning := (·.reasoning)
  toolCalls := (·.toolCalls)

theorem fromValue_toValue (call : ToolCall) : ToolCall.fromValue call.tool.toValue = some call := rfl

theorem mapM_fromValue : ∀ calls : List ToolCall,
    (calls.map fun call => call.tool.toValue).mapM ToolCall.fromValue = some calls
  | [] => rfl
  | call :: calls => by
    rw [List.map_cons, List.mapM_cons, fromValue_toValue, mapM_fromValue calls]
    rfl

theorem pathProtocol_faithful : pathProtocol.Faithful where
  reads content reasoning calls _ := by
    refine ⟨⟨content, reasoning, calls⟩, ?_, rfl, rfl, rfl⟩
    have hcalls : (message content reasoning (calls.map (·.tool))).get? "tool_calls" =
        some (.list (calls.map fun call => call.tool.toValue)) := by
      rw [message, Value.get?, List.map_map]
      rfl
    have hcontent : ((message content reasoning (calls.map (·.tool))).get? "content").bind
        Value.asStr? = content := by cases content <;> rfl
    have hreasoning : ((message content reasoning (calls.map (·.tool))).get?
        "reasoning_content").bind Value.asStr? = reasoning := by cases reasoning <;> rfl
    rw [show pathProtocol.fromValue = AssistantMessage.fromValue from rfl,
      AssistantMessage.fromValue, hcalls, hcontent, hreasoning]
    simp only [mapM_fromValue, Option.map_some]

/-- The first chunk of a tool call, and the one that ends it. -/
def openingChunk : ToolChunk :=
  ⟨0, .dict [("index", .int 0), ("id", .str "c1"), ("type", .str "function"),
    ("function", .dict [("name", .str "read"), ("arguments", .str "\x7b")])]⟩

def endingChunk : ToolChunk :=
  ⟨0, .dict [("index", .int 0), ("function", .dict [("arguments", .str "\"path\": \"x\"\x7d")])]⟩

/-- A tool call in two fragments, and a frame between them. -/
def fragmentedTurn (middle : Value) : List Call :=
  [.observe ⟨[⟨0, .dict [("role", .str "assistant")], some [openingChunk], none⟩]⟩,
    .observe ⟨[⟨0, middle, none, none⟩]⟩,
    .observe ⟨[⟨0, .dict [], some [endingChunk], some (.str "tool_calls")⟩]⟩,
    .observe ⟨[]⟩]

theorem fragmentedTurn_framed {middle : Value} (h : Plain middle) : Framed (fragmentedTurn middle) where
  notRejected := by simp [fragmentedTurn]
  single := by
    intro frame hframe
    simp only [frames, fragmentedTurn, List.filterMap_cons, List.filterMap_nil, List.isEmpty_cons,
      Bool.false_eq_true, if_false, List.isEmpty_nil, if_true, List.mem_cons, List.not_mem_nil,
      or_false] at hframe
    rcases hframe with rfl | rfl | rfl <;> exact ⟨_, rfl, rfl⟩
  plain := by
    have hfirst : Plain (.dict [("role", .str "assistant")]) :=
      ⟨rfl, rfl, fun role hrole => (Option.some.inj hrole).symm⟩
    have hlast : Plain (.dict []) := ⟨rfl, rfl, fun _ hrole => by cases hrole⟩
    intro choice hchoice
    change choice ∈ [_, _, _] at hchoice
    simp only [List.mem_cons, List.not_mem_nil, or_false] at hchoice
    rcases hchoice with rfl | rfl | rfl
    · exact hfirst
    · exact h
    · exact hlast
  reason := by
    refine ⟨[⟨0, .dict [("role", .str "assistant")], some [openingChunk], none⟩,
      ⟨0, middle, none, none⟩], _, rfl, ?_, rfl⟩
    simp

theorem fragmentedTurn_turn {middle : Value} (h : Plain middle) :
    Turn pathProtocol.fromStr (fragmentedTurn middle) where
  toFramed := fragmentedTurn_framed h
  indices := ⟨1, Nat.one_pos, fun index => by
    change index ∈ [0, 0] ↔ index < 1
    simp⟩
  agreeing := fun index => by
    change Agreeing (chunksAt index [openingChunk, endingChunk])
    by_cases hindex : index = 0
    · subst hindex
      exact ⟨by decide, by decide, by decide⟩
    · rw [show chunksAt index [openingChunk, endingChunk] = [] by
        simp [chunksAt, openingChunk, endingChunk, Ne.symm hindex]]
      exact agreeing_nil
  complete := fun index hindex => by
    change index ∈ [0, 0] at hindex
    obtain rfl : index = 0 := by simpa using hindex
    exact ⟨⟨"c1", List.mem_singleton_self _, by decide⟩, ⟨"read", List.mem_singleton_self _, by decide⟩,
      _, rfl, rfl⟩
  distinct := fun i j id hi hj => by
    have hi := mem_indices_of_given hi
    have hj := mem_indices_of_given hj
    change i ∈ [0, 0] at hi
    change j ∈ [0, 0] at hj
    simp only [List.mem_cons, List.not_mem_nil, or_false, or_self] at hi hj
    rw [hi, hj]

def textDelta : Value := .dict [("content", .str "hello"), ("reasoning_content", .str "think")]

/-- A turn with text between its fragments ends with the text and the joined arguments. -/
theorem completed_tool_turn_fragmented :
    (run (fragmentedTurn textDelta)).finish pathProtocol =
      some ⟨some "hello", some "think", [⟨"c1", "read", "\x7b\"path\": \"x\"\x7d"⟩]⟩ := by
  obtain ⟨haccept, hmessage, -⟩ :=
    completed_tool_turn pathProtocol_faithful (fragmentedTurn textDelta)
  obtain ⟨m, hm⟩ := Option.isSome_iff_exists.1
    (haccept.2 ⟨fragmentedTurn_turn ⟨rfl, rfl, nofun⟩, by decide⟩)
  obtain ⟨hcontent, hreasoning, n, hn, hcalls⟩ := hmessage m hm
  have hn₁ : n = 1 := by
    have h₀ : 0 < n := (hn 0).1 (by decide)
    have h₁ : ¬ 1 < n := fun h => absurd ((hn 1).2 h) (by decide)
    omega
  subst hn₁
  obtain ⟨content, reasoning, toolCalls⟩ := m
  rw [hm, show content = some "hello" from hcontent, show reasoning = some "think" from hreasoning,
    show toolCalls = [⟨"c1", "read", "\x7b\"path\": \"x\"\x7d"⟩] from hcalls]

def partsDelta : Value :=
  .dict [("content", .list [.dict [("type", .str "text"), ("text", .str "parts")]])]

/-- **A turn whose content is an array of parts is rejected.** -/
theorem contentParts_rejected :
    Turn pathProtocol.fromStr (fragmentedTurn partsDelta) ∧
      (run (fragmentedTurn partsDelta)).finish pathProtocol = none := by
  refine ⟨fragmentedTurn_turn ⟨rfl, rfl, nofun⟩, Option.eq_none_iff_forall_ne_some.2 fun m hm => ?_⟩
  exact absurd (turn_of_finish hm).2 (by decide)

end ReedCode.SpeculativePrefill
