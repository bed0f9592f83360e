import Mathlib.Data.List.Basic
import ReedCode.Lib.PosixPath

/-!
# POSIX paths over any characters

The functions of `posixpath` for texts whose characters are not those of Lean, with a slash and a
dot as parameters.

* `normpath`, `commonpath`, `relpath` — as in `PosixPath`.
* `join_map`, `normpath_map`, `commonpath_map` — **they are the same functions, character by
  character**.
-/

set_option autoImplicit false

universe u v

namespace ReedCode.PathText

section Functions

variable {α : Type u} [DecidableEq α] (slash dot : α)

def isabs (path : List α) : Bool := path.head? == some slash

/-- Two slashes in front stay two; three or more count as one. -/
def slashes (path : List α) : Nat :=
  match (path.takeWhile fun c => c = slash).length with
  | 0 => 0
  | 2 => 2
  | _ => 1

def joined (comps : List (List α)) : List α := List.intercalate [slash] comps

/-- `posixpath.join(a, b)`. -/
def join (a b : List α) : List α :=
  if isabs slash b then b
  else if a = [] ∨ a.getLast? = some slash then a ++ b
  else a ++ slash :: b

/-- The loop body of `normpath`. -/
def pushComp (rooted : Bool) (comps : List (List α)) (comp : List α) : List (List α) :=
  if comp = [] ∨ comp = [dot] then comps
  else if comp ≠ [dot, dot] ∨ (rooted = false ∧ comps = []) ∨ comps.getLast? = some [dot, dot] then
    comps ++ [comp]
  else comps.dropLast

def normpath (path : List α) : List α :=
  if path = [] then [dot]
  else
    let n := slashes slash path
    let comps := (path.splitOn slash).foldl (pushComp dot (decide (n ≠ 0))) []
    let out := List.replicate n slash ++ joined slash comps
    if out = [] then [dot] else out

/-- The components that name something. -/
def names (path : List α) : List (List α) :=
  (path.splitOn slash).filter fun c => c ≠ [] ∧ c ≠ [dot]

/-- `posixpath.commonpath([a, b])`; `none` where absolute and relative paths are mixed. -/
def commonpath (a b : List α) : Option (List α) :=
  if isabs slash a ≠ isabs slash b then none
  else
    let common := (names slash dot a).take
      (Lists.commonLength (names slash dot a) (names slash dot b))
    some ((if isabs slash a then [slash] else []) ++ joined slash common)

/-- The components of an absolute path without the slashes in front. -/
def tailList (path : List α) : List (List α) :=
  let tail := path.dropWhile (· = slash)
  if tail = [] then [] else tail.splitOn slash

/-- `posixpath.relpath(path, start)` of absolute paths; `none` for an empty path. -/
def relpath (path start : List α) : Option (List α) :=
  if path = [] then none
  else
    let startList := tailList slash (normpath slash dot start)
    let pathList := tailList slash (normpath slash dot path)
    let i := Lists.commonLength startList pathList
    let relList := List.replicate (startList.length - i) [dot, dot] ++ pathList.drop i
    some (if relList = [] then [dot] else joined slash relList)

/-- A normal path has something in it. -/
theorem normpath_ne_nil (path : List α) : normpath slash dot path ≠ [] := by
  rw [normpath]
  split
  · exact List.cons_ne_nil dot []
  · simp only
    split
    · exact List.cons_ne_nil dot []
    · assumption

end Functions

/-! ## Paths of Lean characters -/

section Map

variable {β : Type v} [DecidableEq β] {f : Char → β} (hf : Function.Injective f)

include hf

theorem isabs_map (path : PosixPath.Path) : isabs (f '/') (path.map f) = PosixPath.isabs path := by
  rw [isabs, PosixPath.isabs, List.head?_map]
  cases path.head? with
  | none => rfl
  | some c =>
    rw [Option.map_some, Bool.eq_iff_iff, beq_iff_eq, beq_iff_eq, Option.some.injEq,
      Option.some.injEq, hf.eq_iff]

theorem slashes_map : ∀ path : PosixPath.Path,
    slashes (f '/') (path.map f) = PosixPath.slashes path := by
  have hcount : ∀ path : PosixPath.Path, slashes (f '/') (path.map f) = slashes '/' path := by
    intro path
    rw [slashes, slashes, List.takeWhile_map, List.length_map]
    congr 3
    funext c
    simp only [Function.comp_apply, hf.eq_iff]
  have hpath : ∀ path : PosixPath.Path, slashes '/' path = PosixPath.slashes path := by
    intro path
    unfold PosixPath.slashes
    split
    · simp [slashes]
    · rename_i rest hrest
      cases rest with
      | nil => rfl
      | cons c rest =>
        have hc : c ≠ '/' := by
          rintro rfl
          exact hrest rest rfl
        simp [slashes, hc]
    · rename_i rest _ hrest
      cases rest with
      | nil => rfl
      | cons c rest =>
        have hc : c ≠ '/' := by
          rintro rfl
          exact hrest rest rfl
        simp [slashes, hc]
    · rename_i hrest
      cases path with
      | nil => rfl
      | cons c rest =>
        have hc : c ≠ '/' := by
          rintro rfl
          exact hrest rest rfl
        simp [slashes, hc]
  exact fun path => (hcount path).trans (hpath path)

theorem splitOn_map (c : Char) : ∀ path : PosixPath.Path,
    (path.map f).splitOn (f c) = (path.splitOn c).map (List.map f)
  | [] => by simp
  | d :: path => by
    have ih := splitOn_map c path
    rw [List.splitOn_eq_splitOnP, List.splitOn_eq_splitOnP] at ih ⊢
    rw [List.map_cons, List.splitOnP_cons_eq_if_modifyHead, List.splitOnP_cons_eq_if_modifyHead, ih]
    by_cases hd : d = c
    · subst hd
      simp
    · rw [if_neg (by simpa using fun h => hd (hf h)), if_neg (by simpa using hd)]
      cases List.splitOnP (· == c) path <;> rfl

omit [DecidableEq β] hf in
theorem joined_map (comps : List PosixPath.Path) :
    joined (f '/') (comps.map (List.map f)) = (PosixPath.joined comps).map f := by
  rw [joined, PosixPath.joined]
  induction comps with
  | nil => rfl
  | cons comp comps ih =>
    cases comps with
    | nil => simp [List.intercalate]
    | cons next comps =>
      simp only [List.intercalate, List.map_cons, List.intersperse_cons_cons, List.flatten_cons,
        List.map_append, List.map_nil] at ih ⊢
      rw [ih]

theorem join_map (a b : PosixPath.Path) :
    join (f '/') (a.map f) (b.map f) = (PosixPath.join a b).map f := by
  have hlast : (a.map f).getLast? = some (f '/') ↔ a.getLast? = some '/' := by
    rw [List.getLast?_map]
    cases a.getLast? <;> simp [hf.eq_iff]
  rw [join, PosixPath.join, isabs_map hf]
  simp only [List.map_eq_nil_iff, hlast]
  split
  · rfl
  · split
    · rw [List.map_append]
    · rw [List.map_append, List.map_cons]

theorem pushComp_map (rooted : Bool) (comps : List PosixPath.Path) (comp : PosixPath.Path) :
    pushComp (f '.') rooted (comps.map (List.map f)) (comp.map f) =
      (PosixPath.pushComp rooted comps comp).map (List.map f) := by
  have hinj := List.map_injective_iff.2 hf
  have hdot : comp.map f = [f '.'] ↔ comp = ['.'] := hinj.eq_iff (b := ['.'])
  have hdots : comp.map f = [f '.', f '.'] ↔ comp = PosixPath.dotdot :=
    hinj.eq_iff (b := PosixPath.dotdot)
  have hlast : (comps.map (List.map f)).getLast? = some [f '.', f '.'] ↔
      comps.getLast? = some PosixPath.dotdot := by
    rw [List.getLast?_map]
    cases comps.getLast? with
    | none => simp
    | some last =>
      rw [Option.map_some, Option.some.injEq, Option.some.injEq]
      exact hinj.eq_iff (b := PosixPath.dotdot)
  rw [pushComp, PosixPath.pushComp]
  simp only [List.map_eq_nil_iff, hdot, ne_eq, hdots, hlast]
  split
  · rfl
  · split
    · rw [List.map_append, List.map_singleton]
    · rw [List.map_dropLast]

theorem foldl_pushComp_map (rooted : Bool) : ∀ pieces comps : List PosixPath.Path,
    (pieces.map (List.map f)).foldl (pushComp (f '.') rooted) (comps.map (List.map f)) =
      (pieces.foldl (PosixPath.pushComp rooted) comps).map (List.map f)
  | [], _ => rfl
  | piece :: pieces, comps => by
    rw [List.map_cons, List.foldl_cons, List.foldl_cons, pushComp_map hf, foldl_pushComp_map]

/-- **Normal paths are the same.** -/
theorem normpath_map (path : PosixPath.Path) :
    normpath (f '/') (f '.') (path.map f) = (PosixPath.normpath path).map f := by
  rw [normpath, PosixPath.normpath]
  have hfold := foldl_pushComp_map hf (decide (PosixPath.slashes path ≠ 0)) (path.splitOn '/') []
  rw [List.map_nil] at hfold
  have hout : List.replicate (PosixPath.slashes path) (f '/') ++ joined (f '/')
      (((path.splitOn '/').foldl (PosixPath.pushComp (decide (PosixPath.slashes path ≠ 0))) []).map
        (List.map f)) = (List.replicate (PosixPath.slashes path) '/' ++ PosixPath.joined
          ((path.splitOn '/').foldl (PosixPath.pushComp (decide (PosixPath.slashes path ≠ 0))) [])).map
            f := by
    rw [List.map_append, List.map_replicate, joined_map]
  simp only [slashes_map hf, splitOn_map hf, hfold, hout, List.map_eq_nil_iff]
  split
  · rfl
  · split <;> rfl

theorem names_map (path : PosixPath.Path) :
    names (f '/') (f '.') (path.map f) = (PosixPath.names path).map (List.map f) := by
  have hinj := List.map_injective_iff.2 hf
  rw [names, PosixPath.names, splitOn_map hf, List.filter_map]
  congr 2
  funext comp
  have hdot : comp.map f = [f '.'] ↔ comp = ['.'] := hinj.eq_iff (b := ['.'])
  simp only [Function.comp_apply, ne_eq, List.map_eq_nil_iff, hdot]

theorem commonpath_map (a b : PosixPath.Path) :
    commonpath (f '/') (f '.') (a.map f) (b.map f) =
      (PosixPath.commonpath a b).toOption.map (List.map f) := by
  rw [commonpath, PosixPath.commonpath, isabs_map hf, isabs_map hf, names_map hf, names_map hf,
    Lists.commonLength_map (List.map_injective_iff.2 hf)]
  split
  · rfl
  · simp only [Except.toOption, Option.map_some, List.map_append, ← joined_map, List.map_take]
    split <;> rfl

end Map

end ReedCode.PathText
