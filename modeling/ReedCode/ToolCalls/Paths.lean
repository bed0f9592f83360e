import Mathlib.Data.List.TakeWhile
import ReedCode.FileTools.Paths
import ReedCode.ToolCalls.Execute

/-!
# The paths of tool calls

* `Agent.Within` — the path stays in the workspace; `safePath_eq`.
* `safePath_lit` — **on texts without surrogates `safe_path` is the one of the file tools**.
* `fileCommand_target` — an accepted path always has a command.
-/

set_option autoImplicit false

namespace ReedCode.ToolCalls

open Str (lit)

/-! ## Absolute paths -/

section Absolute

variable {α : Type*} [DecidableEq α] {slash dot : α} {a b path : List α}

theorem isabs_cons_self (rest : List α) : PathText.isabs slash (slash :: rest) = true := by
  rw [PathText.isabs, List.head?_cons, beq_self_eq_true]

theorem isabs_append (h : PathText.isabs slash a = true) : PathText.isabs slash (a ++ b) = true := by
  rw [PathText.isabs, beq_iff_eq] at h ⊢
  rw [List.head?_append, h, Option.some_or]

theorem isabs_join (h : PathText.isabs slash a = true) :
    PathText.isabs slash (PathText.join slash a b) = true := by
  rw [PathText.join]
  split
  · assumption
  · split
    · exact isabs_append h
    · exact isabs_append h

theorem slashes_pos (h : PathText.isabs slash path = true) : 0 < PathText.slashes slash path := by
  cases path with
  | nil => cases h
  | cons c rest =>
    rw [PathText.isabs, List.head?_cons, beq_iff_eq, Option.some.injEq] at h
    subst h
    have hpos : ((c :: rest).takeWhile fun x => x = c).length ≠ 0 := by
      rw [List.takeWhile_cons, if_pos (decide_eq_true rfl), List.length_cons]
      exact Nat.succ_ne_zero _
    rw [PathText.slashes]
    split
    · contradiction
    · exact Nat.two_pos
    · exact Nat.one_pos

theorem isabs_normpath (h : PathText.isabs slash path = true) :
    PathText.isabs slash (PathText.normpath slash dot path) = true := by
  obtain ⟨n, hn⟩ := Nat.exists_eq_add_one_of_ne_zero (slashes_pos h).ne'
  have hne : path ≠ [] := by
    rintro rfl
    cases h
  rw [PathText.normpath, if_neg hne]
  simp only [hn, List.replicate_succ, List.cons_append, reduceCtorEq, if_false]
  exact isabs_cons_self _

end Absolute

variable (a : Agent)

theorem Agent.isabs_base : PathText.isabs 47 a.base = true := isabs_normpath a.absolute

theorem Agent.isabs_target (path : Str) : PathText.isabs 47 (a.target path) = true :=
  isabs_normpath (isabs_join a.isabs_base)

/-! ## `safe_path` -/

/-- A text of an argument that a tool takes. -/
def Usable (text : Str) : Prop := text.blank = false ∧ 0 ∉ text

instance : DecidablePred Usable := fun text =>
  inferInstanceAs (Decidable (text.blank = false ∧ 0 ∉ text))

theorem not_usable {text : Str} : ¬ Usable text ↔ text.blank = true ∨ 0 ∈ text := by
  rw [Usable, not_and_or, Bool.not_eq_false, not_not]

/-- The path stays in the workspace, as `commonpath` sees it. -/
def Agent.Within (path : Str) : Prop :=
  PathText.commonpath 47 46 a.base (a.target path) = some a.base

instance (path : Str) : Decidable (a.Within path) := inferInstanceAs (Decidable (_ = _))

theorem Agent.commonpath_target (path : Str) :
    ∃ common, PathText.commonpath 47 46 a.base (a.target path) = some common := by
  rw [PathText.commonpath, a.isabs_base, a.isabs_target, if_neg (not_not.2 rfl)]
  exact ⟨_, rfl⟩

/-- A usable path leaves the workspace or is accepted. -/
theorem Agent.safePath_eq {path : Str} (h : Usable path) :
    a.safePath (.str path) =
      if a.Within path then .ok (a.target path)
      else .error (valueError (lit "Path must stay inside " ++ a.base)) := by
  obtain ⟨common, hcommon⟩ := a.commonpath_target path
  simp only [Agent.safePath, if_neg (fun hbad => not_usable.2 hbad h), Agent.Within, hcommon,
    Option.some.injEq, ne_eq]
  exact ite_not _ _ _

theorem Agent.fileCommand_target (path : Str) (operation : String) (source : Str) :
    ∃ relative, PathText.relpath 47 46 (a.target path) a.cwd = some relative ∧
      a.fileCommand (a.target path) operation source =
        .ok (.fileTool a.cwd relative operation source) := by
  have hrel : ∃ relative, PathText.relpath 47 46 (a.target path) a.cwd = some relative := by
    have hne : a.target path ≠ [] := PathText.normpath_ne_nil 47 46 _
    rw [PathText.relpath, if_neg hne]
    exact ⟨_, rfl⟩
  obtain ⟨relative, hrel⟩ := hrel
  refine ⟨relative, hrel, ?_⟩
  rw [Agent.fileCommand, hrel]

/-! ## Texts without surrogates -/

theorem toNat_injective : Function.Injective Char.toNat := fun _ _ h => Char.toNat_inj.1 h

theorem lit_append (s t : String) : lit (s ++ t) = lit s ++ lit t := by
  rw [lit, String.toList_append, List.map_append]
  rfl

theorem blank_lit (s : String) : (lit s).blank = true ↔ PyText.strip s.toList = [] := by
  have hall : (lit s).blank = s.toList.all PyText.isSpace := by
    rw [Str.blank, lit, List.all_map]
    rfl
  rw [hall, PyText.strip, List.reverse_eq_nil_iff, List.dropWhile_eq_nil_iff, List.all_eq_true]
  constructor
  · intro h c hc
    exact h c ((List.dropWhile_suffix _).subset (List.mem_reverse.1 hc))
  · intro h
    have hnil : s.toList.dropWhile PyText.isSpace = [] := by
      by_contra hne
      have hhead := List.head_dropWhile_not PyText.isSpace hne
      rw [h _ (List.mem_reverse.2 (List.head_mem hne))] at hhead
      cases hhead
    exact List.dropWhile_eq_nil_iff.1 hnil

theorem zero_mem_lit (s : String) : 0 ∈ lit s ↔ '\x00' ∈ s.toList :=
  List.mem_map_of_injective toNat_injective (a := '\x00')

/-- **`safe_path` is the one of the file tools**, with the same errors. -/
theorem Agent.safePath_lit {cwd : PosixPath.Path} (hcwd : a.cwd = cwd.map Char.toNat) (s : String) :
    a.safePath (.str (lit s)) =
      match FileTools.safePath cwd (.str s) with
      | .ok target => .ok (target.map Char.toNat)
      | .error text => .error (valueError (lit text)) := by
  have hbase : a.base = (PosixPath.normpath cwd).map Char.toNat := by
    rw [Agent.base, hcwd]
    exact PathText.normpath_map toNat_injective cwd
  have htarget : a.target (lit s) =
      (PosixPath.normpath (PosixPath.join (PosixPath.normpath cwd) s.toList)).map Char.toNat := by
    rw [Agent.target, hbase, lit]
    exact (congrArg _ (PathText.join_map toNat_injective _ _)).trans
      (PathText.normpath_map toNat_injective _)
  by_cases hbad : PyText.strip s.toList = [] ∨ '\x00' ∈ s.toList
  · have hblank : (lit s).blank = true ∨ 0 ∈ lit s :=
      hbad.imp (blank_lit s).2 (zero_mem_lit s).2
    simp only [Agent.safePath, FileTools.safePath, if_pos hblank, if_pos hbad]
  · have husable : Usable (lit s) := by
      by_contra hnot
      exact hbad ((not_usable.1 hnot).imp (blank_lit s).1 (zero_mem_lit s).1)
    have hcommon := PathText.commonpath_map toNat_injective (PosixPath.normpath cwd)
      (PosixPath.normpath (PosixPath.join (PosixPath.normpath cwd) s.toList))
    rw [← hbase, ← htarget] at hcommon
    rw [a.safePath_eq husable]
    simp only [FileTools.safePath, if_neg hbad]
    obtain ⟨common, hsome⟩ := a.commonpath_target (lit s)
    replace hcommon := hsome.symm.trans hcommon
    cases hpath : PosixPath.commonpath (PosixPath.normpath cwd)
        (PosixPath.normpath (PosixPath.join (PosixPath.normpath cwd) s.toList)) with
    | error e =>
      rw [hpath] at hcommon
      cases hcommon
    | ok common' =>
      rw [hpath] at hcommon
      have hmap : common = common'.map Char.toNat := Option.some.inj hcommon
      have hwithin : a.Within (lit s) ↔ common' = PosixPath.normpath cwd := by
        rw [Agent.Within, hsome, hmap, hbase, Option.some.injEq]
        exact (List.map_injective_iff.2 toNat_injective).eq_iff
      by_cases hin : common' = PosixPath.normpath cwd
      · rw [if_pos (hwithin.2 hin)]
        simp only [bind, Except.bind, hin, ne_eq, not_true_eq_false, if_false, htarget]
      · rw [if_neg (fun h => hin (hwithin.1 h))]
        simp only [bind, Except.bind, ne_eq, hin, not_false_eq_true, if_true, lit_append, hbase]
        rw [show lit (String.ofList (PosixPath.normpath cwd)) = _ from
          congrArg (List.map Char.toNat) String.toList_ofList]

end ReedCode.ToolCalls
