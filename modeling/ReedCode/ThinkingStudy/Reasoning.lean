import Mathlib.Data.Finset.Card
import Mathlib.Data.Finset.Range
import ReedCode.Lib.Assembly
import ReedCode.Value

/-!
# Reasoning tokens of the thinking study

`reasoning_spans` of `experiments/dynamo-thinking-20261007/analyze.py`: a scan over the output
tokens with two flags.

* `Scan.step`, `reasoningSpans` — the scan.
* `WellNested`, `countedIn` — nesting and reasoning positions, said of positions of the output.
* `reasoningSpans_exact_iff` — **errors and counts are exact, exactly if every tool closer closes a
  tool span or some other marker is out of place**: the scan takes any tool closer.
-/

set_option autoImplicit false

namespace ReedCode.ThinkingStudy

/-! ## The scan -/

def think : Nat := 151667

def endThink : Nat := 151668

def tool : Nat := 151657

def endTool : Nat := 151658

def eos : Nat := 151645

def assistant : List Nat := [151644, 77091, 198]

def disabled : List Nat := assistant ++ [think, 271, endThink, 271]

/-- An integer that is not negative; `True` and `False` are none. -/
def validId : Value → Option Nat
  | .int n => if 0 ≤ n then some n.toNat else none
  | _ => none

def validIds : Value → Option (List Nat)
  | .list items => items.mapM validId
  | _ => none

structure Scan where
  inside : Bool
  inTool : Bool
  count : Nat
  delimiters : Nat
  eosCount : Nat
  errors : List String
  deriving DecidableEq, Repr

def Scan.new : Scan := ⟨false, false, 0, 0, 0, []⟩

def Scan.fail (s : Scan) (failed : Bool) (error : String) : Scan :=
  if failed then { s with errors := s.errors ++ [error] } else s

def Scan.step (s : Scan) (value : Nat) : Scan :=
  if value = eos then { s with eosCount := s.eosCount + 1 }
  else if value = think ∨ value = endThink then
    let s := { s with delimiters := s.delimiters + 1 }
    if s.inTool then s.fail true "reasoning_marker_inside_tool"
    else if value = think then
      { s.fail s.inside "nested_reasoning_opener" with inside := true }
    else { s.fail (!s.inside) "orphan_reasoning_closer" with inside := false }
  else if value = tool then
    { (s.fail s.inside "tool_inside_unclosed_reasoning").fail s.inTool "nested_tool_marker" with
      inTool := true }
  else if value = endTool then { s with inTool := false }
  else if s.inside then { s with count := s.count + 1 }
  else s

structure Spans where
  reasoningTokens : Option Nat
  reasoningDelimiterTokens : Option Nat
  eosTokens : Option Nat
  openReasoningAtEnd : Option Bool
  promptState : Option String
  errors : List String
  deriving DecidableEq, Repr

/-- `prompt[-len(boundary):] == boundary`. -/
def endsWith (prompt boundary : List Nat) : Bool :=
  prompt.drop (prompt.length - boundary.length) == boundary

def promptState (prompt : List Nat) : Option String :=
  if endsWith prompt disabled then some "disabled_empty_closed_span"
  else if endsWith prompt assistant then some "enabled_or_default_outside_reasoning"
  else none

def reasoningSpans (prompt output : Value) : Spans :=
  match validIds prompt, validIds output with
  | some prompt, some output =>
    match promptState prompt with
    | none => ⟨none, none, none, none, none, ["unknown_generation_boundary"]⟩
    | some state =>
      let s := output.foldl Scan.step .new
      ⟨if s.errors = [] then some s.count else none, some s.delimiters, some s.eosCount,
        some s.inside, some state, s.errors⟩
  | _, _ => ⟨none, none, none, none, none, ["native_ids_unavailable"]⟩

/-! ## Spans, by position -/

/-- Behind an opener, and no closer came since. -/
def Within (opener closer : Nat) (before : List Nat) : Prop :=
  ∃ xs ys, before = xs ++ opener :: ys ∧ closer ∉ ys

def InReasoning (before : List Nat) : Prop := Within think endThink before

def InTool (before : List Nat) : Prop := Within tool endTool before

/-- What may stand behind some tokens. -/
structure Allowed (before : List Nat) (value : Nat) : Prop where
  think : value = think → ¬ InReasoning before ∧ ¬ InTool before
  endThink : value = endThink → InReasoning before ∧ ¬ InTool before
  tool : value = tool → ¬ InTool before ∧ ¬ InReasoning before
  endTool : value = endTool → InTool before ∧ ¬ InReasoning before

/-- No opener inside a span of its own kind, no marker of one kind inside a span of the other, no
closer without its opener. -/
def WellNested (output : List Nat) : Prop :=
  ∀ before value after, output = before ++ value :: after → Allowed before value

/-- The markers but the tool closers are in place. -/
def OthersNested (output : List Nat) : Prop :=
  ∀ before value after, output = before ++ value :: after → value ≠ endTool → Allowed before value

/-- Every tool closer closes a tool span. -/
def ToolsClosed (output : List Nat) : Prop :=
  ∀ before value after, output = before ++ value :: after → value = endTool → InTool before

/-- A position in a reasoning span that holds neither the end of the sequence nor a marker. -/
def Counted (output : List Nat) (i : Nat) : Prop :=
  InReasoning (output.take i) ∧
    ∃ value, output[i]? = some value ∧ value ≠ eos ∧ value ≠ think ∧ value ≠ endThink

open Classical in
/-- The number of reasoning positions. -/
noncomputable def countedIn (output : List Nat) : Nat :=
  ((Finset.range output.length).filter (Counted output)).card

theorem within_nil (opener closer : Nat) : ¬ Within opener closer [] := by
  rintro ⟨xs, ys, h, -⟩
  simp at h

theorem within_append {opener closer value : Nat} {before : List Nat} (hne : opener ≠ closer) :
    Within opener closer (before ++ [value]) ↔
      value = opener ∨ value ≠ closer ∧ Within opener closer before := by
  constructor
  · rintro ⟨xs, ys, he, hys⟩
    rcases List.eq_nil_or_concat ys with rfl | ⟨ys', y, rfl⟩
    · exact Or.inl (List.singleton_inj.1 (List.append_inj' he rfl).2)
    · have he' : before ++ [value] = (xs ++ opener :: ys') ++ [y] := by simpa using he
      obtain ⟨hbefore, hvalue⟩ := List.append_inj' he' rfl
      obtain rfl := List.singleton_inj.1 hvalue
      refine Or.inr ⟨fun h => hys (by simp [h]), xs, ys', hbefore, fun h => hys (by simp [h])⟩
  · rintro (rfl | ⟨hvalue, xs, ys, rfl, hys⟩)
    · exact ⟨before, [], rfl, by simp⟩
    · refine ⟨xs, ys ++ [value], by simp, fun h => ?_⟩
      rcases List.mem_append.1 h with h | h
      · exact hys h
      · exact hvalue (List.mem_singleton.1 h).symm

theorem inReasoning_append {before : List Nat} {value : Nat} :
    InReasoning (before ++ [value]) ↔ value = think ∨ value ≠ endThink ∧ InReasoning before :=
  within_append (by decide)

theorem inTool_append {before : List Nat} {value : Nat} :
    InTool (before ++ [value]) ↔ value = tool ∨ value ≠ endTool ∧ InTool before :=
  within_append (by decide)

open Classical in
theorem countedIn_append (before : List Nat) (value : Nat) :
    countedIn (before ++ [value]) = countedIn before +
      if InReasoning before ∧ value ≠ eos ∧ value ≠ think ∧ value ≠ endThink then 1 else 0 := by
  have hold : ∀ i ∈ Finset.range before.length,
      (Counted (before ++ [value]) i ↔ Counted before i) := by
    intro i hi
    have hlt := Finset.mem_range.1 hi
    rw [Counted, Counted, List.take_append_of_le_length (Nat.le_of_lt hlt),
      List.getElem?_append_left hlt]
  have hnew : Counted (before ++ [value]) before.length ↔
      InReasoning before ∧ value ≠ eos ∧ value ≠ think ∧ value ≠ endThink := by
    rw [Counted, List.take_left, List.getElem?_concat_length]
    simp
  rw [countedIn, List.length_append, List.length_singleton, Finset.range_add_one,
    Finset.filter_insert, Finset.filter_congr hold]
  by_cases h : Counted (before ++ [value]) before.length
  · rw [if_pos h, if_pos (hnew.1 h), Finset.card_insert_of_notMem (by simp)]
    rfl
  · rw [if_neg h, if_neg (fun hc => h (hnew.2 hc))]
    rfl

/-! ## What the scan sees -/

theorem othersNested_append {before : List Nat} {value : Nat} :
    OthersNested (before ++ [value]) ↔
      OthersNested before ∧ (value ≠ endTool → Allowed before value) :=
  Assembly.forall_split_append_singleton

theorem toolsClosed_append {before : List Nat} {value : Nat} :
    ToolsClosed (before ++ [value]) ↔ ToolsClosed before ∧ (value = endTool → InTool before) :=
  Assembly.forall_split_append_singleton

/-- The scan behind some tokens. -/
structure Seen (s : Scan) (before : List Nat) : Prop where
  errors : s.errors = [] ↔ OthersNested before
  inside : s.errors = [] → (s.inside = true ↔ InReasoning before)
  inTool : s.errors = [] → (s.inTool = true ↔ InTool before)
  apart : s.errors = [] → ¬ (s.inside = true ∧ s.inTool = true)
  count : s.errors = [] → ToolsClosed before → s.count = countedIn before

theorem seen_new : Seen .new [] := by
  refine ⟨iff_of_true rfl ?_, fun _ => ?_, fun _ => ?_, fun _ h => (by cases h.1), fun _ _ => ?_⟩
  · intro before value after he
    exact absurd he (by simp)
  · exact iff_of_false (by simp [Scan.new]) (within_nil _ _)
  · exact iff_of_false (by simp [Scan.new]) (within_nil _ _)
  · rw [countedIn, List.length_nil, Finset.range_zero, Finset.filter_empty, Finset.card_empty]
    rfl

/-- A step that reports an error, at a token that is out of place. -/
theorem Seen.of_failed {s' : Scan} {before : List Nat} {value : Nat} (herrors : s'.errors ≠ [])
    (hbad : ¬ OthersNested (before ++ [value])) : Seen s' (before ++ [value]) :=
  ⟨iff_of_false herrors hbad, fun h => absurd h herrors, fun h => absurd h herrors,
    fun h => absurd h herrors, fun h => absurd h herrors⟩

open Classical in
/-- A step that reports none, at a token that is in place. -/
theorem Seen.of_ok {s s' : Scan} {before : List Nat} {value : Nat} (hs : Seen s before)
    (herrors : s.errors = []) (herrors' : s'.errors = [])
    (hallowed : value ≠ endTool → Allowed before value)
    (hinside : s'.inside = true ↔ value = think ∨ value ≠ endThink ∧ InReasoning before)
    (hinTool : s'.inTool = true ↔ value = tool ∨ value ≠ endTool ∧ InTool before)
    (hapart : ¬ (s'.inside = true ∧ s'.inTool = true))
    (hcount : (value = endTool → InTool before) → s'.count = s.count +
      if InReasoning before ∧ value ≠ eos ∧ value ≠ think ∧ value ≠ endThink then 1 else 0) :
    Seen s' (before ++ [value]) := by
  refine ⟨iff_of_true herrors' (othersNested_append.2 ⟨hs.errors.1 herrors, hallowed⟩),
    fun _ => hinside.trans inReasoning_append.symm, fun _ => hinTool.trans inTool_append.symm,
    fun _ => hapart, fun _ hclosed => ?_⟩
  obtain ⟨hbefore, hvalue⟩ := toolsClosed_append.1 hclosed
  rw [countedIn_append, hcount hvalue, hs.count herrors hbefore]

section Fail

variable (s : Scan) (failed : Bool) (error : String)

@[simp] theorem fail_inside : (s.fail failed error).inside = s.inside := by cases failed <;> rfl

@[simp] theorem fail_inTool : (s.fail failed error).inTool = s.inTool := by cases failed <;> rfl

@[simp] theorem fail_count : (s.fail failed error).count = s.count := by cases failed <;> rfl

end Fail

theorem fail_errors {s : Scan} {failed : Bool} {error : String} :
    (s.fail failed error).errors = [] ↔ s.errors = [] ∧ failed = false := by
  unfold Scan.fail
  cases failed <;> simp

/-- What the scan does with each kind of token. -/
theorem step_cases (s : Scan) (value : Nat) :
    (value = eos ∧ s.step value = { s with eosCount := s.eosCount + 1 }) ∨
    (value = think ∧ s.step value =
      let s := { s with delimiters := s.delimiters + 1 }
      if s.inTool then s.fail true "reasoning_marker_inside_tool"
      else { s.fail s.inside "nested_reasoning_opener" with inside := true }) ∨
    (value = endThink ∧ s.step value =
      let s := { s with delimiters := s.delimiters + 1 }
      if s.inTool then s.fail true "reasoning_marker_inside_tool"
      else { s.fail (!s.inside) "orphan_reasoning_closer" with inside := false }) ∨
    (value = tool ∧ s.step value =
      { (s.fail s.inside "tool_inside_unclosed_reasoning").fail s.inTool "nested_tool_marker" with
        inTool := true }) ∨
    (value = endTool ∧ s.step value = { s with inTool := false }) ∨
    (value ≠ eos ∧ value ≠ think ∧ value ≠ endThink ∧ value ≠ tool ∧ value ≠ endTool ∧
      s.step value = if s.inside then { s with count := s.count + 1 } else s) := by
  by_cases heos : value = eos
  · exact Or.inl ⟨heos, if_pos heos⟩
  by_cases hthink : value = think
  · subst hthink
    exact Or.inr (Or.inl ⟨rfl, rfl⟩)
  by_cases hendThink : value = endThink
  · subst hendThink
    exact Or.inr (Or.inr (Or.inl ⟨rfl, rfl⟩))
  by_cases htool : value = tool
  · subst htool
    exact Or.inr (Or.inr (Or.inr (Or.inl ⟨rfl, rfl⟩)))
  by_cases hendTool : value = endTool
  · subst hendTool
    exact Or.inr (Or.inr (Or.inr (Or.inr (Or.inl ⟨rfl, rfl⟩))))
  · refine Or.inr (Or.inr (Or.inr (Or.inr (Or.inr
      ⟨heos, hthink, hendThink, htool, hendTool, ?_⟩))))
    rw [Scan.step, if_neg heos, if_neg (by simp [hthink, hendThink]), if_neg htool,
      if_neg hendTool]

theorem step_errors {s : Scan} (value : Nat) (h : (s.step value).errors = []) : s.errors = [] := by
  rcases step_cases s value with ⟨-, he⟩ | ⟨-, he⟩ | ⟨-, he⟩ | ⟨-, he⟩ | ⟨-, he⟩ | ⟨-, -, -, -, -, he⟩ <;>
    rw [he] at h
  · exact h
  · dsimp only at h
    split at h
    · exact (fail_errors.1 h).1
    · exact (fail_errors.1 h).1
  · dsimp only at h
    split at h
    · exact (fail_errors.1 h).1
    · exact (fail_errors.1 h).1
  · exact (fail_errors.1 (fail_errors.1 h).1).1
  · exact h
  · split at h <;> exact h

theorem seen_step {s : Scan} {before : List Nat} (hs : Seen s before) (value : Nat) :
    Seen (s.step value) (before ++ [value]) := by
  by_cases herrors : s.errors = []
  · have hinside := hs.inside herrors
    have hinTool := hs.inTool herrors
    have hapart := hs.apart herrors
    rcases step_cases s value with ⟨rfl, he⟩ | ⟨rfl, he⟩ | ⟨rfl, he⟩ | ⟨rfl, he⟩ | ⟨rfl, he⟩ |
      ⟨h₁, h₂, h₃, h₄, h₅, he⟩ <;> rw [he]
    · refine hs.of_ok herrors herrors (fun _ => ?_) ?_ ?_ hapart fun _ => ?_
      · constructor <;> exact fun h => absurd h (by decide)
      · simp [hinside, eos, think, endThink]
      · simp [hinTool, eos, tool, endTool]
      · simp
    · dsimp only
      split
      · rename_i htool
        refine Seen.of_failed (by simp [Scan.fail]) fun h => ?_
        exact (((othersNested_append.1 h).2 (by decide)).think rfl).2 (hinTool.1 htool)
      · rename_i htool
        by_cases hin : s.inside = true
        · refine Seen.of_failed (by simp [Scan.fail, hin]) fun h => ?_
          exact (((othersNested_append.1 h).2 (by decide)).think rfl).1 (hinside.1 hin)
        · refine hs.of_ok herrors (fail_errors.2 ⟨herrors, Bool.eq_false_iff.2 hin⟩) (fun _ => ?_)
            ?_ ?_ ?_ fun _ => ?_
          · refine ⟨fun _ => ⟨fun h => hin (hinside.2 h), fun h => htool (hinTool.2 h)⟩, ?_, ?_, ?_⟩
            all_goals exact fun h => absurd h (by decide)
          · simp
          · simp [hinTool, think, tool, endTool]
          · simp [htool]
          · simp
    · dsimp only
      split
      · rename_i htool
        refine Seen.of_failed (by simp [Scan.fail]) fun h => ?_
        exact (((othersNested_append.1 h).2 (by decide)).endThink rfl).2 (hinTool.1 htool)
      · rename_i htool
        by_cases hin : s.inside = true
        · refine hs.of_ok herrors (fail_errors.2 ⟨herrors, by simp [hin]⟩) (fun _ => ?_)
            ?_ ?_ ?_ fun _ => ?_
          · refine ⟨?_, fun _ => ⟨hinside.1 hin, fun h => htool (hinTool.2 h)⟩, ?_, ?_⟩
            all_goals exact fun h => absurd h (by decide)
          · simp [think, endThink]
          · simp [hinTool, endThink, tool, endTool]
          · simp
          · simp
        · refine Seen.of_failed (by simp [Scan.fail, hin]) fun h => hin ?_
          exact hinside.2 (((othersNested_append.1 h).2 (by decide)).endThink rfl).1
    · by_cases hin : s.inside = true
      · refine Seen.of_failed (by simp [fail_errors, hin]) fun h => ?_
        exact (((othersNested_append.1 h).2 (by decide)).tool rfl).2 (hinside.1 hin)
      · by_cases htool : s.inTool = true
        · refine Seen.of_failed (by simp [fail_errors, htool]) fun h => ?_
          exact (((othersNested_append.1 h).2 (by decide)).tool rfl).1 (hinTool.1 htool)
        · refine hs.of_ok herrors (by simp [fail_errors, herrors, hin, htool]) (fun _ => ?_)
            ?_ ?_ ?_ fun _ => ?_
          · refine ⟨?_, ?_, fun _ => ⟨fun h => htool (hinTool.2 h), fun h => hin (hinside.2 h)⟩, ?_⟩
            all_goals exact fun h => absurd h (by decide)
          · simp [hinside, think, endThink, tool]
          · simp
          · simp [hin]
          · simp [← hinside, hin]
    · refine hs.of_ok herrors herrors (fun hne => absurd rfl hne) ?_ ?_ (by simp) fun hclosed => ?_
      · simp [hinside, think, endThink, endTool]
      · simp [tool, endTool]
      · have hin : ¬ s.inside = true := fun h => hapart ⟨h, hinTool.2 (hclosed rfl)⟩
        simp [← hinside, hin]
    · have hallowed : Allowed before value :=
        ⟨fun h => absurd h h₂, fun h => absurd h h₃, fun h => absurd h h₄, fun h => absurd h h₅⟩
      split
      · rename_i hin
        refine hs.of_ok herrors herrors (fun _ => hallowed) ?_ ?_ hapart fun _ => ?_
        · simp [h₂, h₃, hinside]
        · simp [h₄, h₅, hinTool]
        · simp [h₁, h₂, h₃, ← hinside, hin]
      · rename_i hin
        refine hs.of_ok herrors herrors (fun _ => hallowed) ?_ ?_ hapart fun _ => ?_
        · simp [h₂, h₃, hinside]
        · simp [h₄, h₅, hinTool]
        · simp [← hinside, hin]
  · refine Seen.of_failed (fun h => herrors (step_errors value h)) fun h => ?_
    exact herrors (hs.errors.2 (othersNested_append.1 h).1)

theorem seen_run : ∀ {output : List Nat} {s : Scan} {before : List Nat}, Seen s before →
    Seen (output.foldl Scan.step s) (before ++ output)
  | [], s, before, hs => by rwa [List.append_nil]
  | value :: output, s, before, hs => by
    rw [List.foldl_cons, List.append_cons]
    exact seen_run (seen_step hs value)

/-! ## Exact spans -/

/-- Token ids as they come in. -/
def idList (ids : List Nat) : Value := .list (ids.map fun n : Nat => .int n)

theorem validIds_idList (ids : List Nat) : validIds (idList ids) = some ids := by
  have hone : ∀ n : Nat, validId (.int n) = some n := fun n => by
    rw [validId, if_pos (Int.natCast_nonneg n), Int.toNat_natCast]
  unfold validIds idList
  dsimp only
  induction ids with
  | nil => rfl
  | cons n ids ih =>
    rw [List.map_cons, List.mapM_cons, hone, ih]
    rfl

/-- The errors are those of the nesting, and the counts those of the positions. -/
structure ExactSpans (output : List Nat) (r : Spans) : Prop where
  errors : r.errors = [] ↔ WellNested output
  reasoningTokens : r.errors = [] → r.reasoningTokens = some (countedIn output)
  openReasoningAtEnd : r.errors = [] →
    ∃ isOpen, r.openReasoningAtEnd = some isOpen ∧ (isOpen = true ↔ InReasoning output)

/-- Nesting is that of the tool closers and that of the other markers. -/
theorem wellNested_iff {output : List Nat} :
    WellNested output ↔ OthersNested output ∧ ToolsClosed output := by
  constructor
  · exact fun h => ⟨fun before value after he _ => h before value after he,
      fun before value after he hvalue => ((h before value after he).endTool hvalue).1⟩
  · rintro ⟨hothers, hclosed⟩ before value after he
    by_cases hvalue : value = endTool
    · have hbefore : OthersNested before := fun before' value' after' he' =>
        hothers before' value' (after' ++ value :: after) (by rw [he, he', List.append_assoc]; rfl)
      have hs := @seen_run before .new [] seen_new
      rw [List.nil_append] at hs
      have herrors := hs.errors.2 hbefore
      have htool := hclosed before value after he hvalue
      subst hvalue
      refine ⟨?_, ?_, ?_, fun _ => ⟨htool, fun h => ?_⟩⟩
      · exact fun h => absurd h (by decide)
      · exact fun h => absurd h (by decide)
      · exact fun h => absurd h (by decide)
      · exact hs.apart herrors ⟨(hs.inside herrors).2 h, (hs.inTool herrors).2 htool⟩
    · exact hothers before value after he hvalue

theorem reasoningSpans_eq {prompt output : List Nat} {state : String}
    (hstate : promptState prompt = some state) :
    reasoningSpans (idList prompt) (idList output) =
      let s := output.foldl Scan.step .new
      ⟨if s.errors = [] then some s.count else none, some s.delimiters, some s.eosCount,
        some s.inside, some state, s.errors⟩ := by
  rw [reasoningSpans, validIds_idList, validIds_idList]
  dsimp only
  rw [hstate]

/-- **Errors and counts are exact**, exactly if every tool closer closes a tool span or another
marker is out of place. -/
theorem reasoningSpans_exact_iff {prompt : List Nat} (hprompt : promptState prompt ≠ none)
    (output : List Nat) :
    ExactSpans output (reasoningSpans (idList prompt) (idList output)) ↔
      (OthersNested output → ToolsClosed output) := by
  obtain ⟨state, hstate⟩ := Option.ne_none_iff_exists'.1 hprompt
  have hs := @seen_run output .new [] seen_new
  rw [List.nil_append] at hs
  rw [reasoningSpans_eq hstate]
  constructor
  · exact fun h hothers => (wellNested_iff.1 (h.errors.1 (hs.errors.2 hothers))).2
  · intro hclosed
    refine ⟨?_, fun herrors => ?_, fun herrors => ⟨_, rfl, hs.inside herrors⟩⟩
    · rw [wellNested_iff]
      exact hs.errors.trans ⟨fun h => ⟨h, hclosed h⟩, fun h => h.1⟩
    · rw [← hs.count herrors (hclosed (hs.errors.1 herrors))]
      exact if_pos herrors

/-- A tool closer without an opener. -/
def strayCloser : List Nat := [endTool]

theorem strayCloser_accepted :
    ¬ ExactSpans strayCloser (reasoningSpans (idList assistant) (idList strayCloser)) := by
  intro h
  obtain ⟨xs, ys, he, -⟩ := (((h.errors.1 (by decide)) [] endTool [] rfl).endTool rfl).1
  simp at he

theorem reasoningSpans_exact_assistant :
    promptState assistant ≠ none ∧
      (ExactSpans [think, 7, endThink, eos] (reasoningSpans (idList assistant)
        (idList [think, 7, endThink, eos])) ↔
        (OthersNested [think, 7, endThink, eos] → ToolsClosed [think, 7, endThink, eos])) :=
  ⟨by decide, reasoningSpans_exact_iff (by decide) _⟩

end ReedCode.ThinkingStudy
