import ReedCode.Lib.CommonPrefix
import ReedCode.Lib.Runs
import ReedCode.Lib.Text

/-!
# POSIX paths

Python's `posixpath` on lists of characters: `isabs`, `join`, `normpath`, `commonpath` and
`relpath`.

* `normpath_normal` — a normalised absolute path is one or two slashes and the plain components.
* `commonpath_eq_left_iff` — when the common path of two normal paths is the first of them.
* `relpath_inside` — the relative path to what lies inside a normal path.
-/

set_option autoImplicit false

namespace ReedCode.PosixPath

abbrev Path := List Char

def dotdot : Path := ['.', '.']

def isabs (path : Path) : Bool := path.head? == some '/'

/-- Two slashes in front stay two; three or more count as one. -/
def slashes : Path → Nat
  | '/' :: '/' :: '/' :: _ => 1
  | '/' :: '/' :: _ => 2
  | '/' :: _ => 1
  | _ => 0

/-- `sep.join(comps)`. -/
def joined (comps : List Path) : Path := List.intercalate ['/'] comps

/-- `posixpath.join(a, b)`. -/
def join (a b : Path) : Path :=
  if isabs b then b
  else if a = [] ∨ a.getLast? = some '/' then a ++ b
  else a ++ '/' :: b

/-- The loop body of `normpath`. -/
def pushComp (rooted : Bool) (comps : List Path) (comp : Path) : List Path :=
  if comp = [] ∨ comp = ['.'] then comps
  else if comp ≠ dotdot ∨ (rooted = false ∧ comps = []) ∨ comps.getLast? = some dotdot then
    comps ++ [comp]
  else comps.dropLast

def normpath (path : Path) : Path :=
  if path = [] then ['.']
  else
    let n := slashes path
    let comps := (path.splitOn '/').foldl (pushComp (decide (n ≠ 0))) []
    let out := List.replicate n '/' ++ joined comps
    if out = [] then ['.'] else out

/-- The components that name something. -/
def names (path : Path) : List Path := (path.splitOn '/').filter fun c => c ≠ [] ∧ c ≠ ['.']

/-- `posixpath.commonpath([a, b])`. -/
def commonpath (a b : Path) : Except String Path :=
  if isabs a ≠ isabs b then .error "Can't mix absolute and relative paths"
  else
    let common := (names a).take (Lists.commonLength (names a) (names b))
    .ok ((if isabs a then ['/'] else []) ++ joined common)

/-- `posixpath.abspath(path)` in the directory `cwd`. -/
def abspath (cwd path : Path) : Path := normpath (if isabs path then path else join cwd path)

/-- The components of an absolute path without the slashes in front. -/
def tailList (path : Path) : List Path :=
  let tail := Text.trimStart '/' path
  if tail = [] then [] else tail.splitOn '/'

/-- `posixpath.relpath(path, start)` in the directory `cwd`. -/
def relpath (cwd path start : Path) : Except String Path :=
  if path = [] then .error "no path specified"
  else
    let startList := tailList (abspath cwd start)
    let pathList := tailList (abspath cwd path)
    let i := Lists.commonLength startList pathList
    let relList := List.replicate (startList.length - i) dotdot ++ pathList.drop i
    .ok (if relList = [] then ['.'] else joined relList)

example : normpath "/a/./b//../c/".toList = "/a/c".toList := by decide +kernel

/-! ## Normal paths -/

/-- A component that names something and goes down. -/
structure Plain (comp : Path) : Prop where
  ne_nil : comp ≠ []
  ne_dot : comp ≠ ['.']
  ne_dotdot : comp ≠ dotdot
  no_slash : '/' ∉ comp

/-- One or two slashes and plain components. -/
structure Normal (n : Nat) (comps : List Path) (path : Path) : Prop where
  eq : path = List.replicate n '/' ++ joined comps
  plain : ∀ comp ∈ comps, Plain comp
  slashes : n = 1 ∨ n = 2

theorem pushComp_plain {comps : List Path} {comp : Path} (h : ∀ c ∈ comps, Plain c)
    (hslash : '/' ∉ comp) : ∀ c ∈ pushComp true comps comp, Plain c := by
  unfold pushComp
  split
  · exact h
  · rename_i hnamed
    rw [not_or] at hnamed
    split
    · rename_i hpush
      intro c hc
      rcases List.mem_append.1 hc with hc | hc
      · exact h c hc
      · rw [List.mem_singleton] at hc
        subst hc
        refine ⟨hnamed.1, hnamed.2, ?_, hslash⟩
        rcases hpush with hne | ⟨hrooted, -⟩ | hlast
        · exact hne
        · cases hrooted
        · exact absurd rfl (h dotdot (List.mem_of_getLast? hlast)).ne_dotdot
    · intro c hc
      exact h c (List.mem_of_mem_dropLast hc)

theorem foldl_pushComp_plain : ∀ {pieces comps : List Path}, (∀ c ∈ comps, Plain c) →
    (∀ piece ∈ pieces, '/' ∉ piece) → ∀ c ∈ pieces.foldl (pushComp true) comps, Plain c
  | [], _, h, _ => h
  | piece :: pieces, comps, h, hpieces => by
    rw [List.foldl_cons]
    exact foldl_pushComp_plain (pushComp_plain h (hpieces piece List.mem_cons_self))
      fun other hmem => hpieces other (List.mem_cons_of_mem _ hmem)

/-- Plain components are kept. -/
theorem foldl_pushComp_eq {rooted : Bool} : ∀ {pieces comps : List Path},
    (∀ piece ∈ pieces, Plain piece) → pieces.foldl (pushComp rooted) comps = comps ++ pieces
  | [], comps, _ => (List.append_nil comps).symm
  | piece :: pieces, comps, h => by
    have hpiece := h piece List.mem_cons_self
    have hpush : pushComp rooted comps piece = comps ++ [piece] := by
      rw [pushComp, if_neg (not_or.2 ⟨hpiece.ne_nil, hpiece.ne_dot⟩),
        if_pos (Or.inl hpiece.ne_dotdot)]
    rw [List.foldl_cons, hpush, foldl_pushComp_eq fun c hc => h c (List.mem_cons_of_mem _ hc),
      List.append_assoc, List.singleton_append]

/-- No piece of a split path has a slash. -/
theorem no_slash_of_mem_splitOn {path piece : Path} (h : piece ∈ path.splitOn '/') :
    '/' ∉ piece := by
  induction path generalizing piece with
  | nil =>
    rw [List.splitOn_nil, List.mem_singleton] at h
    subst h
    exact List.not_mem_nil
  | cons c path ih =>
    rw [List.splitOn_cons_eq_if_modifyHead] at h
    split at h
    · rcases List.mem_cons.1 h with rfl | h
      · exact List.not_mem_nil
      · exact ih h
    · rename_i hc
      cases hsplit : path.splitOn '/' with
      | nil => exact absurd hsplit (List.splitOn_ne_nil '/' path)
      | cons first rest =>
        rw [hsplit, List.modifyHead_cons, List.mem_cons] at h
        rcases h with rfl | h
        · rw [List.mem_cons, not_or]
          refine ⟨fun heq => hc (beq_iff_eq.2 heq.symm), ih ?_⟩
          rw [hsplit]
          exact List.mem_cons_self
        · refine ih ?_
          rw [hsplit]
          exact List.mem_cons_of_mem _ h

theorem isabs_iff {path : Path} : isabs path = true ↔ ∃ rest, path = '/' :: rest := by
  cases path <;> simp [isabs]

theorem slashes_of_isabs {path : Path} (h : isabs path = true) :
    slashes path = 1 ∨ slashes path = 2 := by
  obtain ⟨rest, rfl⟩ := isabs_iff.1 h
  unfold slashes
  split <;> simp_all

/-- One slash in front of something else. -/
theorem slashes_single {rest : Path} (h : isabs rest = false) : slashes ('/' :: rest) = 1 := by
  have hrest : ∀ tail, rest ≠ '/' :: tail := by
    rintro tail rfl
    cases h
  unfold slashes
  split <;> simp_all

theorem isabs_cons {c : Char} {rest : Path} (h : c ≠ '/') : isabs (c :: rest) = false := by
  simpa [isabs] using h

/-- **A normalised absolute path.** -/
theorem normpath_normal {path : Path} (h : isabs path = true) :
    ∃ comps, Normal (slashes path) comps (normpath path) := by
  have hslashes := slashes_of_isabs h
  have hne : slashes path ≠ 0 := by omega
  have hpath : path ≠ [] := by
    rintro rfl
    cases h
  have hout : ∀ comps, List.replicate (slashes path) '/' ++ joined comps ≠ [] := by
    intro comps hnil
    rcases hslashes with hs | hs <;> simp [hs] at hnil
  refine ⟨(path.splitOn '/').foldl (pushComp true) [], ?_, ?_, hslashes⟩
  · rw [normpath, if_neg hpath]
    simp only [hne, ne_eq, not_false_eq_true, decide_true, if_neg (hout _)]
  · exact foldl_pushComp_plain (fun _ hc => by cases hc) fun _ hc => no_slash_of_mem_splitOn hc

section Normal

variable {n m : Nat} {comps comps' : List Path} {path path' : Path}

theorem Plain.first {comp : Path} (h : Plain comp) : ∃ c rest, comp = c :: rest ∧ c ≠ '/' := by
  cases comp with
  | nil => exact absurd rfl h.ne_nil
  | cons c rest =>
    refine ⟨c, rest, rfl, ?_⟩
    rintro rfl
    exact h.no_slash List.mem_cons_self

/-- Plain components do not begin with a slash. -/
theorem joined_first (h : ∀ comp ∈ comps, Plain comp) :
    joined comps = [] ∧ comps = [] ∨ ∃ c rest, joined comps = c :: rest ∧ c ≠ '/' := by
  cases comps with
  | nil => exact Or.inl ⟨rfl, rfl⟩
  | cons comp comps =>
    obtain ⟨c, rest, rfl, hc⟩ := (h comp List.mem_cons_self).first
    cases comps with
    | nil => exact Or.inr ⟨c, rest, List.intercalate_singleton, hc⟩
    | cons next comps =>
      refine Or.inr ⟨c, rest ++ '/' :: joined (next :: comps), ?_, hc⟩
      simp [joined]

theorem splitOn_joined (h : ∀ comp ∈ comps, Plain comp) (hne : comps ≠ []) :
    (joined comps).splitOn '/' = comps :=
  List.splitOn_intercalate '/' (fun comp hmem => (h comp hmem).no_slash) hne

/-- Slashes in front split off empty pieces. -/
theorem splitOn_slashes (rest : Path) : ∀ k : Nat,
    (List.replicate k '/' ++ rest).splitOn '/' = List.replicate k [] ++ rest.splitOn '/'
  | 0 => by simp
  | k + 1 => by
    rw [List.replicate_succ, List.cons_append, List.splitOn_cons_eq_if_modifyHead,
      if_pos (by simp), splitOn_slashes rest k]
    rfl

theorem Normal.isabs (h : Normal n comps path) : isabs path = true := by
  rw [h.eq]
  rcases h.slashes with rfl | rfl <;> rfl

theorem Normal.slashes_eq (h : Normal n comps path) : PosixPath.slashes path = n := by
  rw [h.eq]
  rcases joined_first h.plain with ⟨hnil, -⟩ | ⟨c, rest, hcons, hc⟩
  · rw [hnil]
    rcases h.slashes with rfl | rfl <;> rfl
  · rw [hcons]
    rcases h.slashes with rfl | rfl
    · exact slashes_single (isabs_cons hc)
    · rw [List.replicate_succ, List.replicate_one, List.cons_append, List.singleton_append,
        PosixPath.slashes]
      intro tail htail
      exact hc (List.cons.inj htail).1

theorem Normal.names_eq (h : Normal n comps path) : names path = comps := by
  have hkeep : comps.filter (fun c => c ≠ [] ∧ c ≠ ['.']) = comps := by
    refine List.filter_eq_self.2 fun comp hmem => decide_eq_true ?_
    exact ⟨(h.plain comp hmem).ne_nil, (h.plain comp hmem).ne_dot⟩
  rw [names, h.eq, splitOn_slashes, List.filter_append,
    List.filter_eq_nil_iff.2 fun c hc => by simp [List.eq_of_mem_replicate hc], List.nil_append]
  by_cases hnil : comps = []
  · subst hnil
    rfl
  · rw [splitOn_joined h.plain hnil, hkeep]

/-- Normalising again changes nothing. -/
theorem Normal.normpath_eq (h : Normal n comps path) : normpath path = path := by
  have hpath : path ≠ [] := by
    rintro rfl
    cases h.isabs
  have hfold : (path.splitOn '/').foldl (pushComp (decide (n ≠ 0))) [] = comps := by
    have hempty : ∀ k : Nat, (List.replicate k ([] : Path)).foldl (pushComp (decide (n ≠ 0))) [] =
        [] := by
      intro k
      induction k with
      | zero => rfl
      | succ k ih => rw [List.replicate_succ, List.foldl_cons]; exact ih
    rw [h.eq, splitOn_slashes, List.foldl_append, hempty]
    by_cases hnil : comps = []
    · subst hnil
      rfl
    · rw [splitOn_joined h.plain hnil, foldl_pushComp_eq h.plain, List.nil_append]
  rw [normpath, if_neg hpath]
  simp only [h.slashes_eq, hfold, ← h.eq, if_neg hpath]

theorem Normal.tailList_eq (h : Normal n comps path) : tailList path = comps := by
  have htail : Text.trimStart '/' path = joined comps := by
    have hdrop : (joined comps).dropWhile (· = '/') = joined comps := by
      rcases joined_first h.plain with ⟨hnil, -⟩ | ⟨c, rest, hcons, hc⟩
      · rw [hnil]
        rfl
      · rw [hcons, List.dropWhile_cons_of_neg (by simpa using hc)]
    rw [Text.trimStart, h.eq]
    rcases h.slashes with rfl | rfl
    · exact hdrop
    · exact hdrop
  simp only [tailList, htail]
  rcases joined_first h.plain with ⟨hnil, hcomps⟩ | ⟨c, rest, hcons, -⟩
  · rw [if_pos hnil, hcomps]
  · have hne : comps ≠ [] := by
      rintro rfl
      cases hcons
    rw [if_neg (by rw [hcons]; exact List.cons_ne_nil _ _), splitOn_joined h.plain hne]

theorem joined_injective (h : ∀ comp ∈ comps, Plain comp) (h' : ∀ comp ∈ comps', Plain comp)
    (heq : joined comps = joined comps') : comps = comps' := by
  have hnormal : Normal 1 comps ('/' :: joined comps) := ⟨rfl, h, Or.inl rfl⟩
  have hnormal' : Normal 1 comps' ('/' :: joined comps') := ⟨rfl, h', Or.inl rfl⟩
  rw [← hnormal.names_eq, ← hnormal'.names_eq, heq]

theorem commonpath_normal (h : Normal n comps path) (h' : Normal m comps' path') :
    commonpath path path' =
      .ok ('/' :: joined (comps.take (Lists.commonLength comps comps'))) := by
  rw [commonpath, h.isabs, h'.isabs, h.names_eq, h'.names_eq]
  rfl

/-- **The common path is the first one exactly if it has one slash in front and its components
begin those of the other.** -/
theorem commonpath_eq_left_iff (h : Normal n comps path) (h' : Normal m comps' path') :
    commonpath path path' = .ok path ↔ n = 1 ∧ comps <+: comps' := by
  rw [commonpath_normal h h', Except.ok.injEq]
  have htake : ∀ comp ∈ comps.take (Lists.commonLength comps comps'), Plain comp :=
    fun comp hmem => h.plain comp (List.mem_of_mem_take hmem)
  constructor
  · intro heq
    rw [h.eq] at heq
    rcases h.slashes with rfl | rfl
    · have hcomps := joined_injective htake h.plain (List.cons.inj heq).2
      refine ⟨rfl, ?_⟩
      have hlen : Lists.commonLength comps' comps = comps.length := by
        have hle := congrArg List.length hcomps
        rw [List.length_take] at hle
        have hle' := Lists.commonLength_le_left comps comps'
        rw [Lists.commonLength_comm]
        omega
      exact Lists.prefix_of_commonLength hlen
    · -- two slashes in front are more than the one of a common path
      have htail := (List.cons.inj heq).2
      rcases joined_first htake with ⟨hnil, -⟩ | ⟨c, rest, hcons, hc⟩
      · rw [hnil] at htail
        cases htail
      · rw [hcons] at htail
        exact absurd (List.cons.inj htail).1 hc
  · rintro ⟨rfl, hpre⟩
    have hlen := Lists.commonLength_eq_length hpre
    rw [Lists.commonLength_comm] at hlen
    rw [hlen, List.take_length, h.eq]
    rfl

/-- **The way down to what lies inside.** -/
theorem relpath_inside (cwd : Path) (h : Normal n comps path) (h' : Normal m comps' path')
    (hpre : comps <+: comps') :
    relpath cwd path' path = .ok
      (if comps'.drop comps.length = [] then ['.'] else joined (comps'.drop comps.length)) := by
  have hpath : path' ≠ [] := by
    rintro rfl
    cases h'.isabs
  have hlen := Lists.commonLength_eq_length hpre
  rw [Lists.commonLength_comm] at hlen
  rw [relpath, if_neg hpath]
  simp only [abspath, h.isabs, h'.isabs, if_true, h.normpath_eq, h'.normpath_eq, h.tailList_eq,
    h'.tailList_eq, hlen, Nat.sub_self, List.replicate_zero, List.nil_append]

end Normal

end ReedCode.PosixPath
