import ReedCode.Lib.PosixPath
import ReedCode.PyText
import ReedCode.Value

/-!
# The paths of the file tools

`setup`, `safe_path` and `file_command` of the Harbor agent.

* `safePath_eq_ok_iff` — which paths are accepted.
* `PathSafe`, `pathSafe_iff` — **a path is accepted exactly if it lies inside the workspace, and
  what the file tool is given goes down from there, unless two slashes stand in front**: `normpath`
  keeps them and `commonpath` does not.
-/

set_option autoImplicit false

namespace ReedCode.FileTools

open PosixPath

/-! ## The agent -/

/-- `setup`: the working directory that `pwd` reports. -/
def setup (returnCode : Int) (stdout : Path) : Except String Path :=
  let cwd := PyText.strip stdout
  if returnCode ≠ 0 ∨ isabs cwd = false then
    .error "Could not determine the container working directory"
  else .ok (normpath cwd)

def safePath (cwd : Path) : Value → Except String Path
  | .str s =>
    let path := s.toList
    if PyText.strip path = [] ∨ '\x00' ∈ path then
      .error "path must be a nonempty string without NUL bytes"
    else do
      let base := normpath cwd
      let target := normpath (join base path)
      if (← commonpath base target) ≠ base then
        .error ("Path must stay inside " ++ String.ofList base)
      else .ok target
  | _ => .error "path must be a nonempty string without NUL bytes"

/-- The arguments of the file tool. -/
structure Argv where
  root : Path
  relative : Path
  operation : String
  source : Path
  deriving DecidableEq, Repr

/-- `file_command`, as the arguments that the shell hands to the script. -/
def fileCommand (getcwd cwd path : Path) (operation : String) (source : Path) :
    Except String Argv := do
  return ⟨cwd, ← relpath getcwd path cwd, operation, source⟩

/-! ## Accepted paths -/

/-- The path lies in the workspace, component by component. -/
def Inside (cwd path : Path) : Prop := names cwd <+: names (normpath (join cwd path))

instance (cwd path : Path) : Decidable (Inside cwd path) := inferInstanceAs (Decidable (_ <+: _))

/-- Neither blank nor with a NUL. -/
structure Usable (path : Path) : Prop where
  nonblank : PyText.strip path ≠ []
  no_nul : '\x00' ∉ path

section Accepted

variable {n : Nat} {comps : List Path} {cwd path target : Path}

theorem isabs_join (path : Path) (h : isabs cwd = true) : isabs (join cwd path) = true := by
  obtain ⟨rest, rfl⟩ := isabs_iff.1 h
  unfold join
  split
  · assumption
  · split <;> rfl

/-- A relative path does not change the slashes in front of a normal one. -/
theorem slashes_join (h : Normal 1 comps cwd) :
    slashes (join cwd path) = if isabs path then slashes path else 1 := by
  unfold join
  split
  · rfl
  · rename_i hrel
    rw [Bool.not_eq_true] at hrel
    rw [h.eq]
    rcases joined_first h.plain with ⟨hnil, -⟩ | ⟨c, rest, hcons, hc⟩
    · rw [hnil]
      exact slashes_single hrel
    · rw [hcons]
      split
      · exact slashes_single (isabs_cons hc)
      · exact slashes_single (isabs_cons hc)

theorem safePath_eq_ok_iff (hcwd : Normal n comps cwd) {s : String} (hpath : Usable s.toList) :
    safePath cwd (.str s) = .ok target ↔
      n = 1 ∧ Inside cwd s.toList ∧ target = normpath (join cwd s.toList) := by
  obtain ⟨comps', hnormal⟩ := normpath_normal (isabs_join s.toList hcwd.isabs)
  rw [safePath, if_neg (not_or.2 ⟨hpath.nonblank, hpath.no_nul⟩)]
  simp only [hcwd.normpath_eq, Except.bind_eq_ok_iff]
  rw [Inside, hcwd.names_eq, hnormal.names_eq]
  constructor
  · rintro ⟨common, hcommon, h⟩
    split at h
    · cases h
    · rename_i heq
      rw [not_not] at heq
      subst heq
      obtain ⟨hn, hpre⟩ := (commonpath_eq_left_iff hcwd hnormal).1 hcommon
      exact ⟨hn, hpre, (Except.ok.inj h).symm⟩
  · rintro ⟨hn, hpre, rfl⟩
    exact ⟨cwd, (commonpath_eq_left_iff hcwd hnormal).2 ⟨hn, hpre⟩, if_neg (not_not.2 rfl)⟩

end Accepted

/-! ## Safe paths -/

/-- A path is accepted exactly if it lies inside; and the file tool is given plain components to go
down, unless the target is the working directory. -/
structure PathSafe (cwd : Path) (s : String) : Prop where
  accepted : (∃ target, safePath cwd (.str s) = .ok target) ↔ Inside cwd s.toList
  plain : ∀ target, safePath cwd (.str s) = .ok target → target ≠ cwd →
    ∀ getcwd operation source, ∃ argv,
      fileCommand getcwd cwd target operation source = .ok argv ∧
        ∀ part ∈ argv.relative.splitOn '/', part ≠ [] ∧ part ≠ ['.'] ∧ part ≠ dotdot

/-- Two slashes stand in front of a working directory that the path lies in, or of a path that names
the working directory. -/
def TwoSlashes (cwd path : Path) : Prop :=
  slashes cwd = 2 ∧ Inside cwd path ∨ slashes path = 2 ∧ names (normpath path) = names cwd

instance (cwd path : Path) : Decidable (TwoSlashes cwd path) :=
  inferInstanceAs (Decidable (_ ∧ _ ∨ _ ∧ _))

theorem fileCommand_inside {n m : Nat} {comps comps' : List Path} {cwd target : Path}
    (getcwd : Path) (operation : String) (source : Path) (hcwd : Normal n comps cwd)
    (htarget : Normal m comps' target) (hpre : comps <+: comps') :
    fileCommand getcwd cwd target operation source = .ok ⟨cwd,
      if comps'.drop comps.length = [] then ['.'] else joined (comps'.drop comps.length),
      operation, source⟩ := by
  rw [fileCommand, relpath_inside getcwd hcwd htarget hpre]
  rfl

/-- **Exactly two slashes in front lead astray.** -/
theorem pathSafe_iff {raw : Path} (hraw : isabs raw = true) {s : String} (hpath : Usable s.toList) :
    PathSafe (normpath raw) s ↔ ¬ TwoSlashes (normpath raw) s.toList := by
  obtain ⟨comps, hcwd⟩ := normpath_normal hraw
  generalize normpath raw = cwd at hcwd
  generalize slashes raw = n at hcwd
  obtain ⟨comps', htarget⟩ := normpath_normal (isabs_join s.toList hcwd.isabs)
  have hinside : Inside cwd s.toList ↔ comps <+: comps' := by
    rw [Inside, hcwd.names_eq, htarget.names_eq]
  have hok : ∀ target, safePath cwd (.str s) = .ok target ↔
      n = 1 ∧ Inside cwd s.toList ∧ target = normpath (join cwd s.toList) :=
    fun target => safePath_eq_ok_iff hcwd hpath
  rcases hcwd.slashes with rfl | rfl
  · -- one slash: every inside path is accepted
    have haccepted : (∃ target, safePath cwd (.str s) = .ok target) ↔ Inside cwd s.toList :=
      ⟨fun ⟨target, h⟩ => ((hok target).1 h).2.1, fun h => ⟨_, (hok _).2 ⟨rfl, h, rfl⟩⟩⟩
    have htwo : TwoSlashes cwd s.toList ↔ slashes (join cwd s.toList) = 2 ∧ comps' = comps := by
      rw [TwoSlashes, hcwd.slashes_eq, slashes_join hcwd, hcwd.names_eq]
      by_cases habs : isabs s.toList = true
      · have hjoin : join cwd s.toList = s.toList := by rw [join, if_pos habs]
        rw [if_pos habs, ← hjoin, htarget.names_eq]
        simp
      · have hone : slashes s.toList ≠ 2 := by
          intro h
          unfold slashes at h
          split at h <;> simp_all [isabs]
        rw [if_neg habs]
        simp [hone]
    constructor
    · rintro ⟨-, hplain⟩ htwice
      obtain ⟨hslashes, rfl⟩ := htwo.1 htwice
      have hin : comps' <+: comps' := List.prefix_rfl
      have hne : normpath (join cwd s.toList) ≠ cwd := by
        intro heq
        rw [heq] at htarget
        have hsame := htarget.slashes_eq
        rw [hcwd.slashes_eq, hslashes] at hsame
        cases hsame
      obtain ⟨argv, hargv, hparts⟩ :=
        hplain _ ((hok _).2 ⟨rfl, hinside.2 hin, rfl⟩) hne [] "read" []
      rw [fileCommand_inside _ _ _ hcwd htarget hin, Except.ok.injEq] at hargv
      subst hargv
      rw [List.drop_length, if_pos rfl] at hparts
      exact (hparts ['.'] (by simp [List.splitOn_eq_singleton])).2.1 rfl
    · intro hone
      refine ⟨haccepted, ?_⟩
      intro target htargetOk hne getcwd operation source
      obtain ⟨-, hin, rfl⟩ := (hok target).1 htargetOk
      rw [hinside] at hin
      refine ⟨_, fileCommand_inside getcwd operation source hcwd htarget hin, ?_⟩
      have hdrop : comps'.drop comps.length ≠ [] := by
        intro hnil
        obtain ⟨below, rfl⟩ := hin
        rw [List.drop_left] at hnil
        subst hnil
        rw [List.append_nil] at htarget htwo
        have hslashes := slashes_of_isabs (isabs_join s.toList hcwd.isabs)
        rcases hslashes with hs | hs
        · apply hne
          exact htarget.eq.trans (hs ▸ hcwd.eq.symm)
        · exact hone (htwo.2 ⟨hs, rfl⟩)
      have hplain : ∀ comp ∈ comps'.drop comps.length, Plain comp :=
        fun comp hmem => htarget.plain comp (List.mem_of_mem_drop hmem)
      rw [if_neg hdrop, splitOn_joined hplain hdrop]
      intro part hpart
      exact ⟨(hplain part hpart).ne_nil, (hplain part hpart).ne_dot, (hplain part hpart).ne_dotdot⟩
  · -- two slashes: nothing is accepted
    have hnone : ∀ target, safePath cwd (.str s) ≠ .ok target := by
      intro target h
      have hn := ((hok target).1 h).1
      cases hn
    have htwo : TwoSlashes cwd s.toList ↔ Inside cwd s.toList := by
      rw [TwoSlashes, hcwd.slashes_eq]
      constructor
      · rintro (⟨-, h⟩ | ⟨hslashes, hnames⟩)
        · exact h
        · have habs : isabs s.toList = true := by
            unfold slashes at hslashes
            split at hslashes <;> simp_all [isabs]
          rw [Inside, join, if_pos habs, hnames]
      · exact fun h => Or.inl ⟨rfl, h⟩
    rw [htwo]
    constructor
    · rintro ⟨haccepted, -⟩ h
      obtain ⟨target, ht⟩ := haccepted.2 h
      exact hnone target ht
    · intro h
      exact ⟨⟨fun ⟨target, ht⟩ => absurd ht (hnone target), fun hin => absurd hin h⟩,
        fun target ht => absurd ht (hnone target)⟩

end ReedCode.FileTools
