import ReedCode.ChatStream.Rearranged

/-!
# What a returned chat completion is

* `Exact` — the completion is the message that was streamed, and nothing came behind its end.
* `exact_of_assembles`, `refusalsInTime_of_exact` — what the checks of the loop give, and the one
  field they leave out: a refusal behind the finish reason.
* `streamCompletion_exact_iff` — **the completions are exact, and do not depend on the chunking,
  exactly if no refusal comes too late in a stream that is otherwise in order.**
-/

set_option autoImplicit false

namespace ReedCode.ChatStream

open Assembly (fragmentsAt callOf textsAt)

def Delta.shows (delta : Delta) : Bool :=
  (TextKey.all.any fun key => (delta.texts.get key).truthy) || !delta.toolCalls.isEmpty

def Chunk.shows (c : Chunk) : Bool := c.choices.any fun ch => ch.delta.shows

def Chunk.refuses (c : Chunk) : Bool := c.choices.any fun ch => (ch.delta.texts.get .refusal).truthy

theorem Delta.shows_eq (delta : Delta) :
    delta.shows = (delta.outputs || (delta.texts.get .refusal).truthy) := by
  simp only [Delta.shows, Delta.outputs, TextKey.all, List.any_cons, List.any_nil, Bool.or_false]
  ac_rfl

theorem shows_eq (c : Chunk) : c.shows = (c.outputs || c.refuses) := by
  rw [Bool.eq_iff_iff, Bool.or_eq_true, Chunk.shows, Chunk.outputs, Chunk.refuses]
  simp only [List.any_eq_true, Delta.shows_eq, Bool.or_eq_true, and_or_left, exists_or]

/-- The parts of one tool call. -/
def partsAt (i : Int) (cs : List Chunk) : List Part := (partsOf cs).filter fun part => part.index = i

theorem fragmentsAt_eq (i : Int) (cs : List Chunk) :
    fragmentsAt i (fragmentsOf cs) = (partsAt i cs).map Part.fragment := List.filter_map ..

/-- The call has the one id that its parts give.  Only a call that a length limit cut may be left
without one. -/
def HasIdOf (parts : List Part) (finish : String) (id : String) : Prop :=
  (∀ part ∈ parts, ∀ a, given part.id = some a → a = id) ∧
    ((∃ part ∈ parts, given part.id = some id) ∨
      finish = "length" ∧ id = "" ∧ ∀ part ∈ parts, given part.id = none)

structure Exact (cs : List Chunk) (completion : Completion) : Prop where
  oneId : ∀ c ∈ cs, completion.id = some c.id
  single : ∀ c ∈ cs, c.choices ≠ [] → ∃ ch, c.choices = [ch] ∧ ch.index = 0
  oneFinish : finishesOf cs = [completion.finishReason]
  nothingBehind : ∀ before c after, cs = before ++ c :: after → finishesOf before ≠ [] →
    c.shows = false
  texts : ∀ key, (completion.texts.get key).getD "" = String.join (textsAt key (piecesOf cs))
  indices : ∀ i : Int, (∃ part ∈ partsOf cs, part.index = i) ↔
    0 ≤ i ∧ i < completion.toolCalls.length
  toolCalls : ∀ (n : Nat) call, completion.toolCalls[n]? = some call →
    call.name = String.join ((partsAt n cs).map fun part => part.name.getD "") ∧
    call.arguments = String.join ((partsAt n cs).map fun part => part.arguments.getD "") ∧
    ∃ id, call.id = some id ∧ HasIdOf (partsAt n cs) completion.finishReason id
  usage : completion.usage = (usagesOf cs).getLast?

/-- No refusal comes behind the finish reason. -/
def RefusalsInTime (cs : List Chunk) : Prop :=
  ∀ before c after, cs = before ++ c :: after → finishesOf before ≠ [] → c.refuses = false

theorem refusalsInTime_of_exact {cs : List Chunk} {completion : Completion}
    (h : Exact cs completion) : RefusalsInTime cs := by
  intro before c after he hne
  have hshows := h.nothingBehind before c after he hne
  rw [shows_eq, Bool.or_eq_false_iff] at hshows
  exact hshows.2

theorem closeCall_name (finish : String) (call : Assembly.Call) :
    (closeCall finish call).name = call.name := by
  unfold closeCall
  split <;> rfl

theorem closeCall_arguments (finish : String) (call : Assembly.Call) :
    (closeCall finish call).arguments = call.arguments := by
  unfold closeCall
  split <;> rfl

theorem closeCall_id {parts : List Part} {finish id : String} {call : Assembly.Call}
    (hcall : callOf (parts.map Part.fragment) = some call)
    (hagree : Assembly.IdsAgree (parts.map Part.fragment)) (hkeys : ∀ p ∈ parts, ∀ q ∈ parts,
      p.index = q.index) (hid : (closeCall finish call).id = some id) :
    HasIdOf parts finish id := by
  obtain ⟨-, hlast, -, -⟩ := Assembly.callOf_eq_some hcall
  cases hgiven : call.id with
  | some a =>
    have ha : id = a := by
      unfold closeCall at hid
      split at hid
      · rw [hgiven] at hid
        exact (Option.some.inj hid).symm
      · exact Option.some.inj (hid.symm.trans hgiven)
    subst ha
    obtain ⟨f, hf, hfid⟩ := List.mem_filterMap.1 (List.mem_of_getLast? (hlast.symm.trans hgiven))
    obtain ⟨part, hpart, rfl⟩ := List.mem_map.1 hf
    refine ⟨fun part' hpart' b hb => ?_, Or.inl ⟨part, hpart, hfid⟩⟩
    exact hagree part'.fragment (List.mem_map_of_mem hpart') part.fragment hf
      (hkeys part' hpart' part hpart) b id hb hfid
  | none =>
    have hnone : ∀ part ∈ parts, given part.id = none := by
      intro part hpart
      rw [hgiven, eq_comm, List.getLast?_eq_none_iff, List.filterMap_eq_nil_iff] at hlast
      exact hlast part.fragment (List.mem_map_of_mem hpart)
    refine ⟨fun part hpart a ha => ?_, Or.inr ?_⟩
    · rw [hnone part hpart] at ha
      cases ha
    · unfold closeCall at hid
      split at hid
      · rename_i hlength
        rw [hgiven] at hid
        exact ⟨hlength, (Option.some.inj hid).symm, hnone⟩
      · rw [hgiven] at hid
        cases hid

/-- **What the checks give**, where no refusal comes too late. -/
theorem exact_of_assembles {V : Validation} {cs : List Chunk} {completion : Completion}
    (hv : Valid cs) (ha : Assembles cs completion) (haccepts : V.accepts completion = true)
    (hrefusals : RefusalsInTime cs) : Exact cs completion := by
  obtain ⟨calls, hall, htools⟩ := ha.toolCalls
  have hlength : completion.toolCalls.length = calls.length := by rw [htools, List.length_map]
  refine ⟨?_, ?_, ?_, ?_, ?_, ?_, ?_, ha.usage⟩
  · intro c hc
    rw [ha.id]
    cases hlast : cs.getLast? with
    | none => exact absurd (List.getLast?_eq_none_iff.1 hlast) (List.ne_nil_of_mem hc)
    | some last => rw [Option.map_some, hv.oneId last (List.mem_of_getLast? hlast) c hc]
  · intro c hc hne
    obtain ⟨ch, rest, hchoices⟩ := List.exists_cons_of_ne_nil hne
    obtain ⟨hindex, hcount⟩ := (hv.plain c hc).single ch (by rw [hchoices]; simp)
    rw [hchoices, List.length_cons, Nat.add_eq_right, List.length_eq_zero_iff] at hcount
    exact ⟨ch, by rw [hchoices, hcount], hindex⟩
  · have hfinish := hv.finish
    have hhead := ha.finishReason
    cases hfinishes : finishesOf cs with
    | nil =>
      rw [hfinishes] at hhead
      cases hhead
    | cons finish rest =>
      rw [hfinishes] at hfinish hhead
      obtain rfl := Option.some.inj hhead
      have hrest : rest = [] := List.eq_nil_of_length_eq_zero (by
        rw [List.length_cons] at hfinish
        omega)
      rw [hrest]
  · intro before c after he hne
    rw [shows_eq, hv.quiet before c after he hne, hrefusals before c after he hne]
    rfl
  · intro key
    rw [ha.texts, Assembly.textOf_getD, textsAt_spoken, Assembly.join_filter_ne_empty]
  · intro i
    have hparts : (∃ part ∈ partsOf cs, part.index = i) ↔ partsAt i cs ≠ [] := by
      rw [partsAt, Ne, List.filter_eq_nil_iff]
      simp
    rw [hparts, Ne, ← @List.map_eq_nil_iff _ _ Part.fragment, ← fragmentsAt_eq,
      ← Assembly.callOf_eq_none, hall, hlength]
    split
    · rename_i hpos
      simp
      omega
    · rename_i hneg
      exact iff_of_false (fun h => h rfl) fun h => hneg h.1
  · intro n call hcall
    rw [htools, List.getElem?_map, Option.map_eq_some_iff] at hcall
    obtain ⟨call₀, hcall₀, rfl⟩ := hcall
    have hcallOf : callOf ((partsAt n cs).map Part.fragment) = some call₀ := by
      rw [← fragmentsAt_eq, hall, if_pos (Int.natCast_nonneg n), Int.toNat_natCast, hcall₀]
    obtain ⟨-, -, hname, harguments⟩ := Assembly.callOf_eq_some hcallOf
    rw [List.map_map] at hname harguments
    have hmem : closeCall completion.finishReason call₀ ∈ completion.toolCalls := by
      rw [htools]
      exact List.mem_map_of_mem (List.mem_of_getElem? hcall₀)
    obtain ⟨id, hid⟩ := Option.ne_none_iff_exists'.1 (V.id_given haccepts _ hmem)
    have hagree : Assembly.IdsAgree ((partsAt n cs).map Part.fragment) := by
      rw [← fragmentsAt_eq]
      exact fun f hf f' hf' => hv.idsAgree f (List.mem_of_mem_filter hf) f'
        (List.mem_of_mem_filter hf')
    have hkeys : ∀ p ∈ partsAt n cs, ∀ q ∈ partsAt n cs, p.index = q.index := fun p hp q hq =>
      (of_decide_eq_true (List.mem_filter.1 hp).2).trans
        (of_decide_eq_true (List.mem_filter.1 hq).2).symm
    rw [closeCall_name, closeCall_arguments]
    exact ⟨hname, harguments, id, hid, closeCall_id hcallOf hagree hkeys hid⟩

/-- **The completions are exact**, and the same for every chunking and interleaving of the stream,
exactly if no refusal comes behind the finish reason of a stream that is otherwise in order. -/
theorem streamCompletion_exact_iff (V : Validation) (arrivals : List (Rat × Chunk)) :
    (∀ completion timing, streamCompletion V arrivals = .ok (completion, timing) →
      Exact (arrivals.map Prod.snd) completion ∧
      ∀ arrivals' : List (Rat × Chunk),
        Relation.EqvGen Step (arrivals.map Prod.snd) (arrivals'.map Prod.snd) →
          ∃ timing', streamCompletion V arrivals' = .ok (completion, timing')) ↔
    ((∃ completion, Valid (arrivals.map Prod.snd) ∧ Assembles (arrivals.map Prod.snd) completion ∧
        V.accepts completion = true) →
      RefusalsInTime (arrivals.map Prod.snd)) := by
  constructor
  · rintro hall ⟨completion, hordered⟩
    obtain ⟨timing, hreturned⟩ := streamCompletion_spec.2 hordered
    exact refusalsInTime_of_exact (hall completion timing hreturned).1
  · intro hintime completion timing hreturned
    obtain ⟨hv, ha, haccepts⟩ := streamCompletion_spec.1 ⟨timing, hreturned⟩
    refine ⟨exact_of_assembles hv ha haccepts (hintime ⟨completion, hv, ha, haccepts⟩), ?_⟩
    intro arrivals' hsteps
    have hsame := same_of_eqvGen hsteps
    exact streamCompletion_spec.2 ⟨hsame.valid hv, hsame.assembles ha, haccepts⟩

/-- A message that is finished, and then a refusal. -/
def lateRefusal : List (Rat × Chunk) :=
  let chunk (delta : DeltaTexts) (finish : Option String) : Chunk :=
    ⟨"c", "m", none, [⟨0, ⟨delta, .null, []⟩, finish⟩]⟩
  [(0, chunk { DeltaTexts.none with content := .str "Hi" } none), (1, chunk .none (some "stop")),
    (2, chunk { DeltaTexts.none with refusal := .str "No" } none)]

/-- Every completion whose calls have ids. -/
def idsOnly : Validation where
  accepts completion := completion.toolCalls.all fun call => call.id.isSome
  id_given h call hcall hnone := by
    have hsome := List.all_eq_true.1 h call hcall
    rw [hnone] at hsome
    cases hsome

theorem lateRefusal_returned : ¬ ∀ completion timing,
    streamCompletion idsOnly lateRefusal = .ok (completion, timing) →
      Exact (lateRefusal.map Prod.snd) completion ∧
      ∀ arrivals' : List (Rat × Chunk),
        Relation.EqvGen Step (lateRefusal.map Prod.snd) (arrivals'.map Prod.snd) →
          ∃ timing', streamCompletion idsOnly arrivals' = .ok (completion, timing') := by
  intro hall
  have hrun : streamCompletion idsOnly lateRefusal = .ok
      (⟨some "c", some "m", "stop", ⟨some "Hi", none, none, some "No"⟩, [], none⟩, ⟨some 0, 3⟩) := by
    decide +kernel
  have hexact := (hall _ _ hrun).1
  have hlate := refusalsInTime_of_exact hexact (lateRefusal.map Prod.snd |>.take 2) _ []
    rfl (by decide)
  revert hlate
  decide

end ReedCode.ChatStream
