import ReedCode.FileTools.Script

/-!
# The file tools stay inside the workspace

* `Quiet` — a change of the tree that changes no file and adds no link to one.
* `Moves`, `Writes` — what a step can do: nothing to the files, or it writes to the one regular file
  with a single link that the script holds (`step_spec`).
* `Safe`, `step_safe`, `run_safe` — the invariant, of every step and every run.
* `file_tools_inside` — **the paths that are accepted and what the script does with them**.
-/

set_option autoImplicit false

namespace ReedCode.FileTools

open PosixPath Inodes

/-! ## Changes of the tree -/

def Regular (t : FileTree Path) (ino : Ino) : Prop := ∃ content, t.content ino = some content

structure Quiet (t t' : FileTree Path) : Prop where
  files : ∀ ino content, t.content ino = some content → t'.content ino = some content
  links : ∀ ino, Regular t ino → t'.links ino ≤ t.links ino

theorem Quiet.refl (t : FileTree Path) : Quiet t t := ⟨fun _ _ h => h, fun _ _ => le_rfl⟩

theorem Quiet.regular {t t' : FileTree Path} (h : Quiet t t') {ino : Ino} (hino : Regular t ino) :
    Regular t' ino := by
  obtain ⟨content, hcontent⟩ := hino
  exact ⟨content, h.files ino content hcontent⟩

theorem quiet_add (t : FileTree Path) (dir : Ino) (name : Path) (node : Node) :
    Quiet t (t.add dir name node) := by
  refine ⟨fun ino content h => FileTree.content_add h, ?_⟩
  rintro ino ⟨content, h⟩
  exact FileTree.links_add_le (FileTree.ne_fresh_of_content h)

theorem quiet_unlink (t : FileTree Path) (dir : Ino) (name : Path) : Quiet t (t.unlink dir name) :=
  ⟨fun _ _ h => h, fun ino _ => FileTree.links_unlink_le ino⟩

theorem quiet_rename (t : FileTree Path) (dir dir' : Ino) (name name' : Path) :
    Quiet t (t.rename dir name dir' name') :=
  ⟨fun ino _ h => (FileTree.content_rename ino).trans h, fun ino _ => FileTree.links_rename_le ino⟩

theorem mkdirat_quiet {t t' : FileTree Path} {dir : Ino} {name : Path}
    (h : t.mkdirat dir name = .ok t') : Quiet t t' := by
  unfold FileTree.mkdirat at h
  split at h
  · cases h
    exact quiet_add t dir name .directory
  · cases h

/-- **Without following links, an open goes through none**, and changes no file. -/
theorem openat_noFollow {t t' : FileTree Path} {flags : Flags} {resolved : Option Ino} {dir : Ino}
    {name : Path} {handle : Handle} (hflags : flags.noFollow = true)
    (h : t.openat flags resolved dir name = some (.ok (t', handle))) :
    handle.followed = false ∧ Quiet t t' := by
  unfold FileTree.openat at h
  cases hentry : t.entries.get? (dir, name) with
  | none =>
    simp only [hentry] at h
    split at h
    · cases h
      exact ⟨rfl, quiet_add t dir name (.regular [])⟩
    · cases h
  | some ino =>
    have hopen : ∀ {r : Option (Except String Handle)}, r = t.openNode flags ino false →
        (r.map fun r => r.map fun h => (t, h)) = some (.ok (t', handle)) →
        handle.followed = false ∧ Quiet t t' := by
      rintro r hr hmap
      obtain ⟨found, hfound, hok⟩ := Option.map_eq_some_iff.1 hmap
      cases found with
      | error e => cases hok
      | ok found =>
        cases hok
        obtain ⟨rfl, -⟩ := FileTree.openNode_ok (hr.symm.trans hfound)
        exact ⟨rfl, Quiet.refl t⟩
    simp only [hentry, hflags] at h
    cases hnode : t.nodes.get? ino with
    | none =>
      simp only [hnode] at h
      exact hopen rfl h
    | some node =>
      cases node with
      | symlink target =>
        simp only [hnode] at h
        cases h
      | regular content =>
        simp only [hnode] at h
        exact hopen rfl h
      | directory =>
        simp only [hnode] at h
        exact hopen rfl h
      | fifo =>
        simp only [hnode] at h
        exact hopen rfl h

/-! ## Phases -/

/-- The file has been truncated. -/
def Phase.copying : Phase → Bool
  | .copy _ _ _ => true
  | .finished copied => copied
  | .failed copied _ => copied
  | _ => false

/-- The files that a phase holds have been checked. -/
def Phase.Checked (t : FileTree Path) : Phase → Prop
  | .print fd _ => Regular t fd
  | .openSource fd => Regular t fd ∧ t.links fd ≤ 1
  | .statSource fd _ => Regular t fd ∧ t.links fd ≤ 1
  | .truncate fd source => Regular t fd ∧ t.links fd ≤ 1 ∧ Regular t source
  | .copy fd source _ => Regular t fd ∧ t.links fd ≤ 1 ∧ Regular t source
  | _ => True

theorem Phase.Checked.quiet {t t' : FileTree Path} (h : Quiet t t') {phase : Phase}
    (hphase : phase.Checked t) : phase.Checked t' := by
  have hfd : ∀ {fd : Ino}, Regular t fd ∧ t.links fd ≤ 1 → Regular t' fd ∧ t'.links fd ≤ 1 :=
    fun hfd => ⟨h.regular hfd.1, (h.links _ hfd.1).trans hfd.2⟩
  cases phase with
  | print fd position => exact h.regular hphase
  | openSource fd => exact hfd hphase
  | statSource fd source => exact hfd hphase
  | truncate fd source =>
    obtain ⟨hreg, hlinks, hsource⟩ := hphase
    exact ⟨h.regular hreg, (h.links _ hreg).trans hlinks, h.regular hsource⟩
  | copy fd source position =>
    obtain ⟨hreg, hlinks, hsource⟩ := hphase
    exact ⟨h.regular hreg, (h.links _ hreg).trans hlinks, h.regular hsource⟩
  | _ => trivial

theorem toward_quiet (argv : Argv) (t : FileTree Path) (fd : Ino) (part : Path) (rest : List Path) :
    (toward argv fd part rest).Checked t ∧ (toward argv fd part rest).copying = false := by
  unfold toward
  split
  · exact ⟨trivial, rfl⟩
  · split
    · exact ⟨trivial, rfl⟩
    · exact ⟨trivial, rfl⟩

/-! ## Steps -/

/-- A step that leaves the files alone. -/
structure Moves (s s' : State) : Prop where
  quiet : Quiet s.tree s'.tree
  followed : s'.followed = s.followed
  touched : ∀ ino ∈ s'.reads ++ s'.writes, ino ∈ s.reads ++ s.writes ∨ Regular s.tree ino
  checked : s'.phase.Checked s'.tree
  copying : s'.phase.copying = false → s.phase.copying = false

/-- A step that writes to the file the script holds. -/
structure Writes (s s' : State) : Prop where
  written : ∃ fd source position content, Regular s.tree fd ∧ s.tree.links fd ≤ 1 ∧
    Regular s.tree source ∧ s'.tree = s.tree.write fd content ∧
    s'.phase = .copy fd source position
  followed : s'.followed = s.followed
  touched : ∀ ino ∈ s'.reads ++ s'.writes, ino ∈ s.reads ++ s.writes ∨ Regular s.tree ino

section Steps

variable {argv : Argv} {c : Choice} {s s' : State}

/-- A step that goes to another phase only. -/
theorem moves_to {phase : Phase} (hchecked : phase.Checked s.tree)
    (hcopying : phase.copying = false → s.phase.copying = false) :
    Moves s { s with phase } :=
  ⟨Quiet.refl _, rfl, fun _ h => Or.inl h, hchecked, hcopying⟩

theorem moves_fail (error : String) (hcopying : s.phase.copying = false) :
    Moves s (s.fail error) := moves_to trivial fun _ => hcopying

/-- An open of a component of the target. -/
theorem moves_opened {flags : Flags} {resolved : Option Ino} {dir : Ino} {name : Path}
    {next : Ino → Phase} (hflags : flags.noFollow = true) (hcopying : s.phase.copying = false)
    (hnext : ∀ t fd, (next fd).Checked t)
    (h : s.opened next (s.tree.openat flags resolved dir name) = some s') : Moves s s' := by
  cases hopen : s.tree.openat flags resolved dir name with
  | none =>
    rw [hopen] at h
    cases h
  | some result =>
    cases result with
    | error e =>
      rw [hopen] at h
      cases h
      exact moves_fail e hcopying
    | ok found =>
      obtain ⟨tree, handle⟩ := found
      obtain ⟨hfollowed, hquiet⟩ := openat_noFollow hflags hopen
      rw [hopen] at h
      cases h
      refine ⟨hquiet, ?_, fun _ h => Or.inl h, hnext _ _, fun _ => hcopying⟩
      rw [hfollowed, Bool.or_false]

theorem isRegular_iff {fd : Ino} : s.isRegular fd = true ↔ Regular s.tree fd := by
  rw [State.isRegular, Option.isSome_iff_exists]
  rfl

/-- Reading from a file that has been checked. -/
theorem touched_cons {ino : Ino} {writes : List Ino} (h : Regular s.tree ino)
    (hwrites : ∀ fd ∈ writes, fd ∈ s.writes ∨ Regular s.tree fd) :
    ∀ fd ∈ (ino :: s.reads) ++ writes, fd ∈ s.reads ++ s.writes ∨ Regular s.tree fd := by
  intro fd hfd
  rcases List.mem_append.1 hfd with hfd | hfd
  · rcases List.mem_cons.1 hfd with rfl | hfd
    · exact Or.inr h
    · exact Or.inl (List.mem_append_left _ hfd)
  · exact (hwrites fd hfd).imp (fun hfd => List.mem_append_right _ hfd) id

theorem copyChunk_spec {fd source : Ino} {position : Nat} (hphase : s.phase = .copy fd source position)
    (h : s.phase.Checked s.tree) :
    Moves s (s.copyChunk c fd source position) ∨ Writes s (s.copyChunk c fd source position) := by
  rw [hphase] at h
  obtain ⟨hfd, hlinks, hsource⟩ := h
  unfold State.copyChunk
  by_cases hchunk : (((s.tree.content source).getD []).drop position).take (c.size + 1) = []
  · simp only [hchunk, if_true]
    refine Or.inl ⟨Quiet.refl _, rfl, touched_cons hsource fun _ h => Or.inl h, trivial, ?_⟩
    intro hfalse
    cases hfalse
  · simp only [if_neg hchunk]
    refine Or.inr ⟨⟨fd, source, _, _, hfd, hlinks, hsource, rfl, rfl⟩, rfl, ?_⟩
    refine touched_cons hsource fun ino hino => ?_
    rcases List.mem_cons.1 hino with rfl | hino
    · exact Or.inr hfd
    · exact Or.inl hino

theorem printChunk_spec {fd : Ino} {position : Nat} (hphase : s.phase = .print fd position)
    (h : s.phase.Checked s.tree) : Moves s (s.printChunk c fd position) := by
  rw [hphase] at h
  have hcopying : s.phase.copying = false := by
    rw [hphase]
    rfl
  unfold State.printChunk
  by_cases hchunk : (((s.tree.content fd).getD []).drop position).take (c.size + 1) = []
  · simp only [hchunk, if_true]
    exact ⟨Quiet.refl _, rfl, touched_cons h fun _ h => Or.inl h, trivial, fun _ => hcopying⟩
  · simp only [if_neg hchunk]
    exact ⟨Quiet.refl _, rfl, touched_cons h fun _ h => Or.inl h, h, fun _ => hcopying⟩

theorem scriptFault_spec {error : String} (h : scriptFault s error = some s') : Moves s s' := by
  unfold scriptFault at h
  cases hphase : s.phase with
  | mkdir parent part rest =>
    simp only [hphase] at h
    split at h
    · cases h
      exact moves_to trivial fun _ => by rw [hphase]; rfl
    · cases h
      exact moves_fail error (by rw [hphase]; rfl)
  | copy fd source position =>
    simp only [hphase, Option.some.injEq] at h
    subst h
    exact moves_to trivial fun hfalse => by cases hfalse
  | start => simp [hphase] at h
  | finished copied => simp [hphase] at h
  | failed copied message => simp [hphase] at h
  | _ =>
    simp only [hphase, Option.some.injEq] at h
    subst h
    exact moves_fail error (by rw [hphase]; rfl)

theorem scriptCall_spec (hchecked : s.phase.Checked s.tree) (h : scriptCall argv c s = some s') :
    Moves s s' ∨ Writes s s' := by
  unfold scriptCall at h
  cases hphase : s.phase with
  | start =>
    simp only [hphase] at h
    left
    split at h
    · cases h
      exact moves_to trivial fun _ => by rw [hphase]; rfl
    · cases h
      exact moves_to trivial fun _ => by rw [hphase]; rfl
  | openRoot =>
    have hcopying : s.phase.copying = false := by rw [hphase]; rfl
    simp only [hphase] at h
    left
    cases hroot : c.resolved with
    | none =>
      simp only [hroot, Option.some.injEq] at h
      subst h
      exact moves_fail _ hcopying
    | some root =>
      simp only [hroot] at h
      split at h
      · cases h
        exact moves_to (toward_quiet argv _ _ _ _).1 fun _ => hcopying
      · cases h
        exact moves_fail _ hcopying
      · cases h
  | mkdir parent part rest =>
    have hcopying : s.phase.copying = false := by rw [hphase]; rfl
    simp only [hphase] at h
    left
    cases hmkdir : s.tree.mkdirat parent part with
    | error e =>
      simp only [hmkdir, Option.some.injEq] at h
      subst h
      exact moves_to trivial fun _ => hcopying
    | ok tree =>
      simp only [hmkdir, Option.some.injEq] at h
      subst h
      exact ⟨mkdirat_quiet hmkdir, rfl, fun _ h => Or.inl h, trivial, fun _ => hcopying⟩
  | enter parent part rest =>
    have hcopying : s.phase.copying = false := by rw [hphase]; rfl
    simp only [hphase] at h
    left
    cases rest with
    | nil => cases h
    | cons next later =>
      exact moves_opened rfl hcopying (fun t fd => (toward_quiet argv t fd next later).1) h
  | openTarget parent part =>
    have hcopying : s.phase.copying = false := by rw [hphase]; rfl
    simp only [hphase] at h
    left
    refine moves_opened rfl hcopying ?_ h
    intro t fd
    trivial
  | statTarget fd =>
    have hcopying : s.phase.copying = false := by rw [hphase]; rfl
    simp only [hphase] at h
    left
    split at h
    · cases h
      exact moves_fail _ hcopying
    · rename_i hregular
      rw [Bool.not_eq_false, isRegular_iff] at hregular
      split at h
      · cases h
        exact moves_to hregular fun _ => hcopying
      · split at h
        · cases h
          exact moves_fail _ hcopying
        · rename_i hlinks
          cases h
          exact moves_to ⟨hregular, le_of_eq (not_not.1 hlinks)⟩ fun _ => hcopying
  | openSource fd =>
    have hcopying : s.phase.copying = false := by rw [hphase]; rfl
    simp only [hphase] at h hchecked
    left
    cases hsource : c.resolved with
    | none =>
      simp only [hsource, Option.some.injEq] at h
      subst h
      exact moves_fail _ hcopying
    | some source =>
      simp only [hsource] at h
      split at h
      · cases h
      · cases h
        exact moves_fail _ hcopying
      · cases h
        exact moves_to hchecked fun _ => hcopying
  | statSource fd source =>
    have hcopying : s.phase.copying = false := by rw [hphase]; rfl
    simp only [hphase] at h hchecked
    left
    split at h
    · cases h
      exact moves_fail _ hcopying
    · rename_i hregular
      rw [Bool.not_eq_false, isRegular_iff] at hregular
      cases h
      exact moves_to ⟨hchecked.1, hchecked.2, hregular⟩ fun _ => hcopying
  | truncate fd source =>
    simp only [hphase, Option.some.injEq] at h hchecked
    subst h
    obtain ⟨hfd, hlinks, hsource⟩ := hchecked
    refine Or.inr ⟨⟨fd, source, 0, [], hfd, hlinks, hsource, rfl, rfl⟩, rfl, ?_⟩
    intro ino hino
    rcases List.mem_append.1 hino with hino | hino
    · exact Or.inl (List.mem_append_left _ hino)
    · rcases List.mem_cons.1 hino with rfl | hino
      · exact Or.inr hfd
      · exact Or.inl (List.mem_append_right _ hino)
  | copy fd source position =>
    simp only [hphase, Option.some.injEq] at h
    subst h
    exact copyChunk_spec hphase hchecked
  | print fd position =>
    simp only [hphase, Option.some.injEq] at h
    subst h
    exact Or.inl (printChunk_spec hphase hchecked)
  | finished copied => simp [hphase] at h
  | failed copied message => simp [hphase] at h

/-- **What a step can do.** -/
theorem step_spec (hchecked : s.phase.Checked s.tree) {a : Action} (h : step argv s a = some s') :
    Moves s s' ∨ Writes s s' := by
  have henv : ∀ {tree : FileTree Path}, Quiet s.tree tree → Moves s { s with tree } := fun hquiet =>
    ⟨hquiet, rfl, fun _ h => Or.inl h, hchecked.quiet hquiet, id⟩
  cases a with
  | script choice =>
    simp only [step, scriptStep] at h
    split at h
    · exact scriptCall_spec hchecked h
    · exact Or.inl (scriptFault_spec h)
  | place dir name node =>
    simp only [step, Option.some.injEq] at h
    subst h
    exact Or.inl (henv (quiet_add s.tree dir name node))
  | unlink dir name =>
    simp only [step, Option.some.injEq] at h
    subst h
    exact Or.inl (henv (quiet_unlink s.tree dir name))
  | rename dir name dir' name' =>
    simp only [step, Option.some.injEq] at h
    subst h
    exact Or.inl (henv (quiet_rename s.tree dir dir' name name'))

end Steps

/-! ## Runs -/

/-- The invariant of a run from `tree`. -/
structure Safe (tree : FileTree Path) (s : State) : Prop where
  followed : s.followed = false
  touched : ∀ ino ∈ s.reads ++ s.writes, Regular s.tree ino
  checked : s.phase.Checked s.tree
  kept : s.phase.copying = false → ∀ ino content, tree.content ino = some content →
    s.tree.content ino = some content

section Runs

variable {argv : Argv} {tree : FileTree Path} {s s' : State} {a : Action}

theorem init_safe (tree : FileTree Path) : Safe tree (.init tree) :=
  ⟨rfl, fun _ h => (by cases h), trivial, fun _ _ _ h => h⟩

theorem regular_write {t : FileTree Path} {fd ino : Ino} {content : Inodes.Bytes} (h : Regular t ino) :
    Regular (t.write fd content) ino := by
  obtain ⟨old, hold⟩ := h
  rw [Regular, FileTree.content_write]
  split
  · exact ⟨content, rfl⟩
  · exact ⟨old, hold⟩

theorem Moves.safe (h : Moves s s') (hsafe : Safe tree s) : Safe tree s' := by
  refine ⟨h.followed.trans hsafe.followed, ?_, h.checked, ?_⟩
  · intro ino hino
    rcases h.touched ino hino with hold | hregular
    · exact h.quiet.regular (hsafe.touched ino hold)
    · exact h.quiet.regular hregular
  · intro hcopying ino content hcontent
    exact h.quiet.files ino content (hsafe.kept (h.copying hcopying) ino content hcontent)

theorem Writes.safe (h : Writes s s') (hsafe : Safe tree s) : Safe tree s' := by
  obtain ⟨fd, source, position, content, hfd, hlinks, hsource, htree, hphase⟩ := h.written
  refine ⟨h.followed.trans hsafe.followed, ?_, ?_, ?_⟩
  · intro ino hino
    rw [htree]
    rcases h.touched ino hino with hold | hregular
    · exact regular_write (hsafe.touched ino hold)
    · exact regular_write hregular
  · rw [htree, hphase]
    exact ⟨regular_write hfd, hlinks, regular_write hsource⟩
  · intro hcopying
    rw [hphase] at hcopying
    cases hcopying

theorem step_safe (hsafe : Safe tree s) (h : step argv s a = some s') : Safe tree s' := by
  rcases step_spec hsafe.checked h with hmoves | hwrites
  · exact hmoves.safe hsafe
  · exact hwrites.safe hsafe

theorem run_safe {acts : List Action} (h : Runs.run (step argv) (.init tree) acts = some s) :
    Safe tree s :=
  Runs.run_induction (fun _ _ _ hsafe hstep => step_safe hsafe hstep) (init_safe tree) h

/-- Only a file with a single link is changed. -/
theorem step_changes (hsafe : Safe tree s) (h : step argv s a = some s') {ino : Ino}
    {content : Inodes.Bytes} (hino : s.tree.content ino = some content)
    (hchanged : s'.tree.content ino ≠ some content) : s.tree.links ino ≤ 1 := by
  rcases step_spec hsafe.checked h with hmoves | hwrites
  · exact absurd (hmoves.quiet.files ino content hino) hchanged
  · obtain ⟨fd, source, position, written, hfd, hlinks, hsource, htree, hphase⟩ := hwrites.written
    rw [htree, FileTree.content_write] at hchanged
    by_cases hsame : fd = ino
    · subst hsame
      exact hlinks
    · rw [if_neg hsame] at hchanged
      exact absurd hino hchanged

end Runs

/-- **The file tools stay inside the workspace.**  A path is accepted exactly if it lies inside,
unless two slashes lead astray; and whatever another process does to the names, the script goes
through no symlink below the root, reads and writes regular files, changes only a file with a single
link, and no file at all where it fails before copying. -/
theorem file_tools_inside {raw : Path} {path : String} (hraw : isabs raw = true)
    (hpath : Usable path.toList) :
    (PathSafe (normpath raw) path ↔ ¬ TwoSlashes (normpath raw) path.toList) ∧
    ∀ argv tree acts s, Runs.run (step argv) (.init tree) acts = some s →
      s.followed = false ∧ (∀ ino ∈ s.reads ++ s.writes, Regular s.tree ino) ∧
      (∀ a s', step argv s a = some s' → ∀ ino content, s.tree.content ino = some content →
        s'.tree.content ino ≠ some content → s.tree.links ino ≤ 1) ∧
      ∀ message, s.phase = .failed false message → ∀ ino content,
        tree.content ino = some content → s.tree.content ino = some content := by
  refine ⟨pathSafe_iff hraw hpath, ?_⟩
  intro argv tree acts s h
  have hsafe := run_safe h
  refine ⟨hsafe.followed, hsafe.touched, ?_, ?_⟩
  · intro a s' hstep ino content hino hchanged
    exact step_changes hsafe hstep hino hchanged
  · intro message hphase
    exact hsafe.kept (by rw [hphase]; rfl)

/-! ## Example

A directory `d` with the file `f`, and the staged text; the other process puts a symlink in the
place of `d` once the script has opened it. -/

def exampleTree : FileTree Path where
  entries := .ofList [((1, ['d']), 2), ((2, ['f']), 3), ((5, ['t']), 4)]
  nodes := .ofList [(1, .directory), (2, .directory), (3, .regular [1]), (4, .regular [7, 8]),
    (5, .directory)]

def exampleArgv : Argv := ⟨"/app".toList, "d/f".toList, "write", "/tmp/t".toList⟩

def exampleActions : List Action :=
  [.script ⟨none, none, 0⟩, .script ⟨none, some 1, 0⟩, .script ⟨none, none, 0⟩,
    .script ⟨none, none, 0⟩, .place 1 ['d'] (.symlink "/etc"), .script ⟨none, none, 0⟩,
    .script ⟨none, none, 0⟩, .script ⟨none, some 4, 0⟩, .script ⟨none, none, 0⟩,
    .script ⟨none, none, 0⟩, .script ⟨none, none, 0⟩, .script ⟨none, none, 0⟩,
    .script ⟨none, none, 0⟩]

theorem file_tools_inside_example :
    PathSafe (normpath "/app".toList) "src/../main.py" ∧
    ∃ s, Runs.run (step exampleArgv) (.init exampleTree) exampleActions = some s ∧
      s.phase = .finished true ∧ s.tree.content 3 = some [7, 8] ∧ s.followed = false := by
  have hrun : (Runs.run (step exampleArgv) (.init exampleTree) exampleActions).map
      (fun s => (s.phase, s.tree.content 3)) = some (.finished true, some [7, 8]) := by
    decide +kernel
  obtain ⟨s, hs, hend⟩ := Option.map_eq_some_iff.1 hrun
  rw [Prod.mk.injEq] at hend
  have hinside := @file_tools_inside "/app".toList "src/../main.py" rfl
    ⟨by decide +kernel, by decide +kernel⟩
  exact ⟨hinside.1.2 (by decide +kernel), s, hs, hend.1, hend.2, (hinside.2 _ _ _ s hs).1⟩

/-- In the working directory `//app` the path `x` lies inside and is refused. -/
theorem file_tools_inside_fails :
    ¬ ∀ raw s, isabs raw = true → Usable s.toList → PathSafe (normpath raw) s := by
  intro h
  have hsafe := h "//app".toList "x" rfl ⟨by decide +kernel, by decide +kernel⟩
  rw [pathSafe_iff rfl ⟨by decide +kernel, by decide +kernel⟩] at hsafe
  exact hsafe (by decide +kernel)

end ReedCode.FileTools
