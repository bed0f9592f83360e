import ReedCode.ToolCalls.Paths

/-!
# What a tool call answers

* `Agent.Asks`, `request_reads` — the arguments that a tool takes, and what is said of the others.
* `World.Ends`, `Ends.eq`, `exists_ends` — **the ways in which `write_file` ends**, and its calls.
* `Quoted` — the texts that come back to the model.
* `Answered`, `tool_calls_answered` — **a bad call is answered and the staging directory removed,
  exactly if `json.loads` gets through and all that is quoted has a UTF-8 form**.
-/

set_option autoImplicit false

namespace ReedCode.ToolCalls

open Str (lit Clean clean_lit clean_append clean_lit_append)

/-! ## What a call asks for -/

section Asks

variable (a : Agent) (loads : Loads) (name arguments : Str)

/-- The arguments are an object with the fields that the tool needs. -/
inductive Agent.Asks : Request → Prop
  | bash {fields : List (Str × Json)} {command : Str} (hname : name = bashTool)
      (hload : loads arguments = .ok (.dict fields))
      (hitem : fields.lookup (lit "command") = some (.str command)) (husable : Usable command) :
      Agent.Asks (.run (.bash command))
  | read {fields : List (Str × Json)} {path relative : Str} (hname : name = readTool)
      (hload : loads arguments = .ok (.dict fields))
      (hitem : fields.lookup (lit "path") = some (.str path)) (husable : Usable path)
      (hwithin : a.Within path)
      (hrelative : PathText.relpath 47 46 (a.target path) a.cwd = some relative) :
      Agent.Asks (.run (.fileTool a.cwd relative "read" []))
  | write {fields : List (Str × Json)} {path content : Str} (hname : name = writeTool)
      (hload : loads arguments = .ok (.dict fields))
      (hitem : fields.lookup (lit "path") = some (.str path)) (husable : Usable path)
      (hwithin : a.Within path) (hcontent : fields.lookup (lit "content") = some (.str content))
      (hclean : Clean content) :
      Agent.Asks (.write (a.target path) (content.flatMap Str.utf8Bytes))

/-- The texts of the caller in what is said of bad arguments. -/
inductive Agent.Names : Str → Prop
  | unknown {fields : List (Str × Json)} (hload : loads arguments = .ok (.dict fields))
      (hbash : name ≠ bashTool) (hread : name ≠ readTool) (hwrite : name ≠ writeTool) :
      Agent.Names name
  | outside {fields : List (Str × Json)} {path : Str}
      (hload : loads arguments = .ok (.dict fields)) (htool : name = readTool ∨ name = writeTool)
      (hitem : fields.lookup (lit "path") = some (.str path)) (husable : Usable path)
      (hout : ¬ a.Within path) : Agent.Names a.base

/-- What comes of reading the arguments. -/
inductive Agent.Reads : Except PyError Request → Prop
  | accepted {request : Request} (hasks : a.Asks loads name arguments request) :
      Agent.Reads (.ok request)
  | deep (hload : loads arguments = .error .recursion) : Agent.Reads (.error .recursion)
  | refused {type : String} {text : Str}
      (hnone : ∀ request, ¬ a.Asks loads name arguments request)
      (hclean : Clean text ↔ ∀ quoted, a.Names loads name arguments quoted → Clean quoted) :
      Agent.Reads (.error (.invalid type text))

variable {a loads name arguments}

theorem Agent.Asks.loads_ok {request : Request} (h : a.Asks loads name arguments request) :
    ∃ fields, loads arguments = .ok (.dict fields) := by
  cases h with
  | bash hname hload hitem husable => exact ⟨_, hload⟩
  | read hname hload hitem husable hwithin hrelative => exact ⟨_, hload⟩
  | write hname hload hitem husable hwithin hcontent hclean => exact ⟨_, hload⟩

theorem Agent.Names.loads_ok {quoted : Str} (h : a.Names loads name arguments quoted) :
    ∃ fields, loads arguments = .ok (.dict fields) := by
  cases h with
  | unknown hload hbash hread hwrite => exact ⟨_, hload⟩
  | outside hload htool hitem husable hout => exact ⟨_, hload⟩

/-- A refusal in the words of the source alone. -/
theorem Agent.Reads.plain {type : String} {text : Str}
    (hnone : ∀ request, ¬ a.Asks loads name arguments request)
    (hnames : ∀ quoted, ¬ a.Names loads name arguments quoted) (hclean : Clean text) :
    a.Reads loads name arguments (.error (.invalid type text)) :=
  .refused hnone (iff_of_true hclean fun quoted hquoted => absurd hquoted (hnames quoted))

theorem Agent.Reads.no_object {type : String} {text : Str}
    (hload : ∀ fields, loads arguments ≠ .ok (.dict fields)) (hclean : Clean text) :
    a.Reads loads name arguments (.error (.invalid type text)) := by
  refine .plain (fun request hasks => ?_) (fun quoted hnames => ?_) hclean
  · obtain ⟨fields, hfields⟩ := hasks.loads_ok
    exact hload fields hfields
  · obtain ⟨fields, hfields⟩ := hnames.loads_ok
    exact hload fields hfields

/-! ## Reading the arguments -/

theorem read_ne_bash : readTool ≠ bashTool := by decide

theorem write_ne_bash : writeTool ≠ bashTool := by decide

theorem write_ne_read : writeTool ≠ readTool := by decide

variable {fields : List (Str × Json)}

theorem Agent.Asks.command (hload : loads arguments = .ok (.dict fields)) (hname : name = bashTool)
    {request : Request} (h : a.Asks loads name arguments request) :
    ∃ command, fields.lookup (lit "command") = some (.str command) ∧ Usable command := by
  cases h with
  | bash _ hload' hitem husable =>
    cases hload.symm.trans hload'
    exact ⟨_, hitem, husable⟩
  | read hname' => exact absurd (hname'.symm.trans hname) read_ne_bash
  | write hname' => exact absurd (hname'.symm.trans hname) write_ne_bash

theorem Agent.Asks.path (hload : loads arguments = .ok (.dict fields)) (hname : name ≠ bashTool)
    {request : Request} (h : a.Asks loads name arguments request) :
    ∃ path, fields.lookup (lit "path") = some (.str path) ∧ Usable path ∧ a.Within path := by
  cases h with
  | bash hname' => exact absurd hname' hname
  | read _ hload' hitem husable hwithin =>
    cases hload.symm.trans hload'
    exact ⟨_, hitem, husable, hwithin⟩
  | write _ hload' hitem husable hwithin =>
    cases hload.symm.trans hload'
    exact ⟨_, hitem, husable, hwithin⟩

theorem Agent.Asks.content (hload : loads arguments = .ok (.dict fields)) (hname : name = writeTool)
    {request : Request} (h : a.Asks loads name arguments request) :
    ∃ content, fields.lookup (lit "content") = some (.str content) ∧ Clean content := by
  cases h with
  | bash hname' => exact absurd (hname.symm.trans hname') write_ne_bash
  | read hname' => exact absurd (hname.symm.trans hname') write_ne_read
  | write _ hload' _ _ _ hcontent hclean =>
    cases hload.symm.trans hload'
    exact ⟨_, hcontent, hclean⟩

theorem Agent.Names.path (hload : loads arguments = .ok (.dict fields))
    (hname : name = readTool ∨ name = writeTool) {quoted : Str}
    (h : a.Names loads name arguments quoted) :
    ∃ path, fields.lookup (lit "path") = some (.str path) ∧ Usable path ∧ ¬ a.Within path ∧
      quoted = a.base := by
  cases h with
  | unknown _ _ hread hwrite => exact absurd hname (not_or.2 ⟨hread, hwrite⟩)
  | outside hload' _ hitem husable hout =>
    cases hload.symm.trans hload'
    exact ⟨_, hitem, husable, hout, rfl⟩

/-- Nothing is wrong with what a tool takes. -/
theorem Agent.Asks.not_names {request : Request} (h : a.Asks loads name arguments request)
    {quoted : Str} : ¬ a.Names loads name arguments quoted := by
  intro hnames
  cases hnames with
  | unknown _ hbash hread hwrite =>
    cases h with
    | bash hname => exact hbash hname
    | read hname => exact hread hname
    | write hname => exact hwrite hname
  | outside hload htool hitem _ hout =>
    have hbash : name ≠ bashTool := by
      rintro rfl
      exact htool.elim (fun h => read_ne_bash h.symm) (fun h => write_ne_bash h.symm)
    obtain ⟨_, hitem', _, hwithin⟩ := h.path hload hbash
    cases hitem.symm.trans hitem'
    exact hout hwithin

theorem clean_keyError (key : String) : Clean (lit ("'" ++ key ++ "'")) := clean_lit _

theorem bash_reads (hload : loads arguments = .ok (.dict fields)) (hname : name = bashTool) :
    a.Reads loads name arguments (a.fields name fields) := by
  have hnames : ∀ quoted, ¬ a.Names loads name arguments quoted := by
    intro quoted h
    cases h with
    | unknown _ hbash => exact hbash hname
    | outside _ htool =>
      rcases htool with h | h
      · exact read_ne_bash (h.symm.trans hname)
      · exact write_ne_bash (h.symm.trans hname)
  have hrefused : ∀ {type text}, (∀ command, fields.lookup (lit "command") = some (.str command) →
      ¬ Usable command) → Clean text →
        a.Reads loads name arguments (.error (.invalid type text)) := by
    intro type text hbad hclean
    refine .plain (fun request hasks => ?_) hnames hclean
    obtain ⟨command, hitem, husable⟩ := hasks.command hload hname
    exact hbad command hitem husable
  rw [Agent.fields, if_pos hname, item]
  cases hitem : fields.lookup (lit "command") with
  | none =>
    refine hrefused (fun command h => ?_) (clean_keyError _)
    cases hitem.symm.trans h
  | some value =>
    cases value with
    | str command =>
      by_cases husable : Usable command
      · simp only [bind, Except.bind, pure, Except.pure, bashCommand,
          if_neg (fun hbad => not_usable.2 hbad husable)]
        exact .accepted (.bash hname hload hitem husable)
      · simp only [bind, Except.bind, bashCommand, if_pos (not_usable.1 husable)]
        refine hrefused (fun command' h => ?_) (clean_lit _)
        cases hitem.symm.trans h
        exact husable
    | dict _ =>
      refine hrefused (fun command h => ?_) (clean_lit _)
      cases hitem.symm.trans h
    | other =>
      refine hrefused (fun command h => ?_) (clean_lit _)
      cases hitem.symm.trans h

/-- What `safe_path(args["path"])` comes to. -/
inductive Agent.ReadsPath (a : Agent) (fields : List (Str × Json)) : Except PyError Str → Prop
  | inside {path : Str} (hitem : fields.lookup (lit "path") = some (.str path))
      (husable : Usable path) (hwithin : a.Within path) :
      Agent.ReadsPath a fields (.ok (a.target path))
  | outside {path : Str} (hitem : fields.lookup (lit "path") = some (.str path))
      (husable : Usable path) (hout : ¬ a.Within path) :
      Agent.ReadsPath a fields (.error (valueError (lit "Path must stay inside " ++ a.base)))
  | bad {type : String} {text : Str}
      (hbad : ∀ path, fields.lookup (lit "path") = some (.str path) → ¬ Usable path)
      (hclean : Clean text) : Agent.ReadsPath a fields (.error (.invalid type text))

theorem safePath_readsPath (a : Agent) (fields : List (Str × Json)) :
    a.ReadsPath fields (item fields "path" >>= a.safePath) := by
  rw [item]
  cases hitem : fields.lookup (lit "path") with
  | none =>
    refine .bad (fun path h => ?_) (clean_keyError _)
    cases hitem.symm.trans h
  | some value =>
    cases value with
    | str path =>
      by_cases husable : Usable path
      · simp only [bind, Except.bind, a.safePath_eq husable]
        split
        · exact .inside hitem husable ‹_›
        · exact .outside hitem husable ‹_›
      · simp only [bind, Except.bind, Agent.safePath, if_pos (not_usable.1 husable)]
        refine .bad (fun path' h => ?_) (clean_lit _)
        cases hitem.symm.trans h
        exact husable
    | dict _ =>
      refine .bad (fun path h => ?_) (clean_lit _)
      cases hitem.symm.trans h
    | other =>
      refine .bad (fun path h => ?_) (clean_lit _)
      cases hitem.symm.trans h

theorem Agent.ReadsPath.refused (hload : loads arguments = .ok (.dict fields))
    (hname : name = readTool ∨ name = writeTool) {e : PyError} (h : a.ReadsPath fields (.error e)) :
    a.Reads loads name arguments (.error e) := by
  have hbash : name ≠ bashTool := by
    rintro rfl
    exact hname.elim (fun h => read_ne_bash h.symm) (fun h => write_ne_bash h.symm)
  cases h with
  | outside hitem husable hout =>
    refine .refused (fun request hasks => ?_) ?_
    · obtain ⟨_, hitem', _, hwithin⟩ := hasks.path hload hbash
      cases hitem.symm.trans hitem'
      exact hout hwithin
    · rw [clean_lit_append]
      constructor
      · intro hclean quoted hnames
        obtain ⟨_, _, _, _, rfl⟩ := hnames.path hload hname
        exact hclean
      · exact fun hclean => hclean _ (.outside hload hname hitem husable hout)
  | bad hbad hclean =>
    refine .plain (fun request hasks => ?_) (fun quoted hnames => ?_) hclean
    · obtain ⟨_, hitem, husable, _⟩ := hasks.path hload hbash
      exact hbad _ hitem husable
    · obtain ⟨_, hitem, husable, _⟩ := hnames.path hload hname
      exact hbad _ hitem husable

theorem read_reads (hload : loads arguments = .ok (.dict fields)) (hname : name = readTool) :
    a.Reads loads name arguments (a.fields name fields) := by
  have hbash : name ≠ bashTool := fun h => read_ne_bash (hname.symm.trans h)
  have hfields : a.fields name fields = (item fields "path" >>= a.safePath) >>= fun path =>
      a.fileCommand path "read" [] >>= fun command => .ok (.run command) := by
    rw [Agent.fields, if_neg hbash, if_pos hname, bind_assoc]
    rfl
  have hpath := safePath_readsPath a fields
  rw [hfields]
  generalize item fields "path" >>= a.safePath = outcome at hpath ⊢
  cases outcome with
  | error e => exact hpath.refused hload (.inl hname)
  | ok target =>
    cases hpath with
    | @inside path hitem husable hwithin =>
      obtain ⟨relative, hrelative, hcommand⟩ := a.fileCommand_target path "read" []
      simp only [bind, Except.bind, hcommand]
      exact .accepted (.read hname hload hitem husable hwithin hrelative)

theorem write_reads (hload : loads arguments = .ok (.dict fields)) (hname : name = writeTool) :
    a.Reads loads name arguments (a.fields name fields) := by
  have hbash : name ≠ bashTool := fun h => write_ne_bash (hname.symm.trans h)
  have hread : name ≠ readTool := fun h => write_ne_read (hname.symm.trans h)
  have hfields : a.fields name fields = (item fields "path" >>= a.safePath) >>= fun path =>
      item fields "content" >>= fun value => fileContent value >>= fun content =>
        .ok (.write path content) := by
    rw [Agent.fields, if_neg hbash, if_neg hread, if_pos hname, bind_assoc]
    rfl
  have hpath := safePath_readsPath a fields
  rw [hfields]
  generalize item fields "path" >>= a.safePath = outcome at hpath ⊢
  cases outcome with
  | error e => exact hpath.refused hload (.inr hname)
  | ok target =>
    cases hpath with
    | @inside path hitem husable hwithin =>
      have hnames : ∀ quoted, ¬ a.Names loads name arguments quoted := by
        intro quoted hnames
        obtain ⟨_, hitem', _, hout, _⟩ := hnames.path hload (.inr hname)
        cases hitem.symm.trans hitem'
        exact hout hwithin
      have hrefused : ∀ {type text}, (∀ content,
          fields.lookup (lit "content") = some (.str content) → ¬ Clean content) → Clean text →
            a.Reads loads name arguments (.error (.invalid type text)) := by
        intro type text hbad hclean
        refine .plain (fun request hasks => ?_) hnames hclean
        obtain ⟨content, hcontent, hcontentClean⟩ := hasks.content hload hname
        exact hbad content hcontent hcontentClean
      simp only [bind, Except.bind, item]
      cases hcontent : fields.lookup (lit "content") with
      | none =>
        refine hrefused (fun content h => ?_) (clean_keyError _)
        cases hcontent.symm.trans h
      | some value =>
        cases value with
        | str content =>
          by_cases hclean : Clean content
          · simp only [fileContent, encode, Str.encode, if_pos hclean, Except.mapError]
            exact .accepted (.write hname hload hitem husable hwithin hcontent hclean)
          · simp only [fileContent, encode, Str.encode, if_neg hclean, Except.mapError]
            refine hrefused (fun content' h => ?_) (Str.clean_encodeError content)
            cases hcontent.symm.trans h
            exact hclean
        | dict _ =>
          refine hrefused (fun content h => ?_) (clean_lit _)
          cases hcontent.symm.trans h
        | other =>
          refine hrefused (fun content h => ?_) (clean_lit _)
          cases hcontent.symm.trans h

theorem unknown_reads (hload : loads arguments = .ok (.dict fields)) (hbash : name ≠ bashTool)
    (hread : name ≠ readTool) (hwrite : name ≠ writeTool) :
    a.Reads loads name arguments (a.fields name fields) := by
  rw [Agent.fields, if_neg hbash, if_neg hread, if_neg hwrite]
  refine .refused (fun request hasks => ?_) ?_
  · cases hasks with
    | bash hname => exact hbash hname
    | read hname => exact hread hname
    | write hname => exact hwrite hname
  · rw [clean_lit_append]
    constructor
    · intro hclean quoted hnames
      cases hnames with
      | unknown => exact hclean
      | outside _ htool => exact absurd htool (not_or.2 ⟨hread, hwrite⟩)
    · exact fun hclean => hclean _ (.unknown hload hbash hread hwrite)

/-- **What comes of any arguments of any tool.** -/
theorem request_reads (a : Agent) (loads : Loads) (name arguments : Str) :
    a.Reads loads name arguments (a.request loads name arguments) := by
  rw [Agent.request]
  cases hload : loads arguments with
  | error e =>
    cases e with
    | invalid type text => exact .no_object (fun fields h => by cases hload.symm.trans h) (clean_lit _)
    | recursion => exact .deep hload
  | ok value =>
    cases value with
    | str _ => exact .no_object (fun fields h => by cases hload.symm.trans h) (clean_lit _)
    | other => exact .no_object (fun fields h => by cases hload.symm.trans h) (clean_lit _)
    | dict fields =>
      by_cases hbash : name = bashTool
      · exact bash_reads hload hbash
      · by_cases hread : name = readTool
        · exact read_reads hload hread
        · by_cases hwrite : name = writeTool
          · exact write_reads hload hwrite
          · exact unknown_reads hload hbash hread hwrite

end Asks

/-! ## How `write_file` ends -/

/-- An exception of the upload, as it leaves the block of the local directory. -/
def EnvError.ofUpload : EnvError → EnvError
  | .runtime text => .os (.other "OSError" (lit "write_file upload failed: " ++ text))
  | e => e

namespace World

variable (w : World) (a : Agent) (path : Str) (content : List UInt8)

/-- The calls in front of the command that writes. -/
def uploaded : List Call := [w.mkdir, .upload content w.stagingFile]

/-- The ways through the body of the `try`. -/
inductive Stages : Except EnvError ExecResult → List Call → Prop
  | noLocal {fault : OsFault} (hmake : w.makeLocal = some fault) :
      Stages (.error (.os fault)) [w.mkdir]
  | localFault {fault : OsFault} (hmake : w.makeLocal = none) (hwrite : w.writeLocal = some fault) :
      Stages (.error (.os (w.removeLocal.getD fault))) [w.mkdir]
  | uploadFault {e : EnvError} (hmake : w.makeLocal = none) (hwrite : w.writeLocal = none)
      (hupload : w.upload [w.mkdir] content w.stagingFile = .error e)
      (hremove : w.removeLocal = none) : Stages (.error e.ofUpload) (w.uploaded content)
  | removeFault {fault : OsFault} (hmake : w.makeLocal = none) (hwrite : w.writeLocal = none)
      (hremove : w.removeLocal = some fault) : Stages (.error (.os fault)) (w.uploaded content)
  | ran {relative : Str} (hmake : w.makeLocal = none) (hwrite : w.writeLocal = none)
      (hupload : w.upload [w.mkdir] content w.stagingFile = .ok ())
      (hremove : w.removeLocal = none)
      (hrelative : PathText.relpath 47 46 path a.cwd = some relative) :
      Stages (w.exec (w.uploaded content) (.fileTool a.cwd relative "write" w.stagingFile))
        (w.uploaded content ++ [.exec (.fileTool a.cwd relative "write" w.stagingFile)])

/-- The ways in which `write_file` ends, with its calls. -/
inductive Ends : Except EnvError ExecResult → List Call → Prop
  | mkdirFault {e : EnvError} (hmkdir : w.exec [] (.mkdir w.stagingDir) = .error e) :
      Ends (.error e) [w.mkdir]
  | refused {created : ExecResult} (hmkdir : w.exec [] (.mkdir w.stagingDir) = .ok created)
      (hcode : created.returnCode ≠ 0) : Ends (.ok created) [w.mkdir]
  | cancelled {created : ExecResult} {reply : Except EnvError ExecResult} {calls : List Call}
      (hmkdir : w.exec [] (.mkdir w.stagingDir) = .ok created) (hcode : created.returnCode = 0)
      (hstages : Stages w a path content reply calls)
      (hcleanup : w.exec calls w.cleanup = .error .cancelled) :
      Ends (.error .cancelled) (calls ++ [.exec w.cleanup])
  | cleaned {created : ExecResult} {reply : Except EnvError ExecResult} {calls : List Call}
      (hmkdir : w.exec [] (.mkdir w.stagingDir) = .ok created) (hcode : created.returnCode = 0)
      (hstages : Stages w a path content reply calls)
      (hcleanup : w.exec calls w.cleanup ≠ .error .cancelled) :
      Ends reply (calls ++ [.exec w.cleanup])

variable {w a path content} {reply : Except EnvError ExecResult} {calls : List Call}

theorem uploadStep_error {e : EnvError} (h : w.upload calls content w.stagingFile = .error e) :
    w.uploadStep content calls = (.error e.ofUpload.raise, calls ++ [.upload content w.stagingFile]) := by
  rw [uploadStep, h]
  cases e <;> rfl

theorem uploadStep_ok (h : w.upload calls content w.stagingFile = .ok ()) :
    w.uploadStep content calls = (.ok (), calls ++ [.upload content w.stagingFile]) := by
  rw [uploadStep, h]

/-- Every way is one that the code takes. -/
theorem Stages.eq (h : w.Stages a path content reply calls) :
    w.staged a path content [w.mkdir] = (reply.mapError EnvError.raise, calls) := by
  cases h with
  | noLocal hmake => simp only [staged, localCopy, hmake, Except.mapError, EnvError.raise]
  | localFault hmake hwrite =>
    simp only [staged, localCopy, hmake, hwrite]
    cases w.removeLocal <;> rfl
  | uploadFault hmake hwrite hupload hremove =>
    simp only [staged, localCopy, hmake, hwrite, uploadStep_error hupload, hremove, uploaded,
      Except.mapError, List.singleton_append]
  | removeFault hmake hwrite hremove =>
    simp only [staged, localCopy, hmake, hwrite, hremove]
    rfl
  | ran hmake hwrite hupload hremove hrelative =>
    simp only [staged, localCopy, hmake, hwrite, uploadStep_ok hupload, hremove,
      Agent.fileCommand, hrelative]
    rfl

theorem exists_stages {path : Str}
    (hrelative : ∃ relative, PathText.relpath 47 46 path a.cwd = some relative) :
    ∃ reply calls, w.Stages a path content reply calls := by
  obtain ⟨relative, hrelative⟩ := hrelative
  cases hmake : w.makeLocal with
  | some fault => exact ⟨_, _, .noLocal hmake⟩
  | none =>
    cases hwrite : w.writeLocal with
    | some fault => exact ⟨_, _, .localFault hmake hwrite⟩
    | none =>
      cases hremove : w.removeLocal with
      | some fault => exact ⟨_, _, .removeFault hmake hwrite hremove⟩
      | none =>
        cases hupload : w.upload [w.mkdir] content w.stagingFile with
        | error e => exact ⟨_, _, .uploadFault hmake hwrite hupload hremove⟩
        | ok => exact ⟨_, _, .ran hmake hwrite hupload hremove hrelative⟩

theorem Ends.eq (h : w.Ends a path content reply calls) :
    w.writeFile a path content = (reply.mapError EnvError.raise, calls) := by
  cases h with
  | mkdirFault hmkdir =>
    rw [writeFile, hmkdir]
    rfl
  | refused hmkdir hcode =>
    rw [writeFile, hmkdir]
    exact if_pos hcode
  | cancelled hmkdir hcode hstages hcleanup =>
    simp only [writeFile, hmkdir, hcode, ne_eq, not_true_eq_false, if_false, hstages.eq, hcleanup]
    rfl
  | cleaned hmkdir hcode hstages hcleanup =>
    simp only [writeFile, hmkdir, hcode, ne_eq, not_true_eq_false, if_false, hstages.eq]

/-- **`write_file` ends in one of these ways.** -/
theorem exists_ends {path : Str}
    (hrelative : ∃ relative, PathText.relpath 47 46 path a.cwd = some relative) :
    ∃ reply calls, w.Ends a path content reply calls := by
  cases hmkdir : w.exec [] (.mkdir w.stagingDir) with
  | error e => exact ⟨_, _, .mkdirFault hmkdir⟩
  | ok created =>
    by_cases hcode : created.returnCode = 0
    · obtain ⟨reply, calls, hstages⟩ : ∃ reply calls, w.Stages a path content reply calls :=
        exists_stages hrelative
      by_cases hcleanup : w.exec calls w.cleanup = .error .cancelled
      · exact ⟨_, _, .cancelled hmkdir hcode hstages hcleanup⟩
      · exact ⟨_, _, .cleaned hmkdir hcode hstages hcleanup⟩
    · exact ⟨_, _, .refused hmkdir hcode⟩

theorem Stages.not_mem_cleanup (h : w.Stages a path content reply calls) :
    .exec w.cleanup ∉ calls := by
  have hmkdir : Call.exec w.cleanup ∉ [w.mkdir] := by simp [cleanup, mkdir]
  have huploaded : Call.exec w.cleanup ∉ w.uploaded content := by simp [uploaded, cleanup, mkdir]
  cases h with
  | noLocal => exact hmkdir
  | localFault => exact hmkdir
  | uploadFault => exact huploaded
  | removeFault => exact huploaded
  | ran =>
    rw [List.mem_append, not_or]
    exact ⟨huploaded, by simp [cleanup]⟩

/-- **The staging directory is removed exactly once.** -/
theorem Ends.count_cleanup (h : w.Ends a path content reply calls) {created : ExecResult}
    (hmkdir : w.exec [] (.mkdir w.stagingDir) = .ok created) (hcode : created.returnCode = 0) :
    calls.count (.exec w.cleanup) = 1 := by
  have hlast : ∀ {reply calls}, w.Stages a path content reply calls →
      (calls ++ [Call.exec w.cleanup]).count (Call.exec w.cleanup) = 1 := by
    intro reply calls hstages
    rw [List.count_append, List.count_eq_zero.2 hstages.not_mem_cleanup, List.count_singleton_self]
  cases h with
  | mkdirFault hmkdir' => cases hmkdir.symm.trans hmkdir'
  | refused hmkdir' hcode' =>
    cases hmkdir.symm.trans hmkdir'
    exact absurd hcode hcode'
  | cancelled _ _ hstages => exact hlast hstages
  | cleaned _ _ hstages => exact hlast hstages

/-- A `RuntimeError` comes from a command, and never from the upload or the cleanup. -/
theorem Ends.runtime {text : Str} (h : w.Ends a path content (.error (.runtime text)) calls) :
    ∃ before command, w.exec before command = .error (.runtime text) ∧
      before ++ [.exec command] <+: calls := by
  have hstaged : ∀ {reply calls}, w.Stages a path content reply calls →
      reply = .error (.runtime text) → ∃ before command,
        w.exec before command = .error (.runtime text) ∧ before ++ [.exec command] <+: calls := by
    intro reply calls hstages hreply
    cases hstages with
    | noLocal => cases hreply
    | localFault => cases hreply
    | @uploadFault e => cases e <;> cases hreply
    | removeFault => cases hreply
    | ran => exact ⟨_, _, hreply, List.prefix_rfl⟩
  cases h with
  | mkdirFault hmkdir => exact ⟨_, _, hmkdir, List.prefix_rfl⟩
  | cleaned _ _ hstages =>
    obtain ⟨before, command, hexec, hprefix⟩ := hstaged hstages rfl
    exact ⟨before, command, hexec, hprefix.trans (List.prefix_append _ _)⟩

end World

/-! ## Observations -/

section Observation

variable {a : Agent} {text : Str}

theorem retained_subset (text : Str) (limit : Nat) (policy : HarborAgent.OutputPolicy) :
    (retained text limit policy).1 ++ (retained text limit policy).2 ⊆ text := by
  unfold retained
  split
  · exact List.append_subset.2 ⟨List.take_subset _ _, List.drop_subset _ _⟩
  · rw [List.append_nil]
    exact List.Subset.refl text

theorem encode_ok (h : Clean text) : encode text = .ok (text.flatMap Str.utf8Bytes) := by
  rw [encode, Str.encode, if_pos h]
  rfl

theorem encode_error (h : ¬ Clean text) :
    encode text = .error (.invalid "UnicodeEncodeError" (Str.encodeError text)) := by
  rw [encode, Str.encode, if_neg h]
  rfl

/-- A text is reported if it has a UTF-8 form. -/
theorem observation_ok (h : Clean text) (success : Bool) (front : Str) :
    ∃ obs, a.observation text success front = .ok obs ∧ obs.success = success := by
  have hkept : Clean ((retained text a.maxToolOutput a.outputPolicy).1 ++
      (retained text a.maxToolOutput a.outputPolicy).2) :=
    h.subset (retained_subset text a.maxToolOutput a.outputPolicy)
  simp only [Agent.observation, retainOutput, encode_ok h, encode_ok hkept, bind, Except.bind, pure,
    Except.pure]
  exact ⟨_, rfl, rfl⟩

theorem observation_error (h : ¬ Clean text) (success : Bool) (front : Str) :
    a.observation text success front =
      .error (.invalid "UnicodeEncodeError" (Str.encodeError text)) := by
  simp only [Agent.observation, retainOutput, encode_error h, bind, Except.bind]

theorem observation_ok_iff (success : Bool) (front : Str) :
    (∃ obs, a.observation text success front = .ok obs) ↔ Clean text := by
  refine ⟨fun hok => ?_, fun h => ?_⟩
  · by_contra h
    obtain ⟨obs, hok⟩ := hok
    rw [observation_error h] at hok
    cases hok
  · obtain ⟨obs, hok, -⟩ := observation_ok (a := a) h success front
    exact ⟨obs, hok⟩

end Observation

/-! ## What is quoted -/

/-- The texts of a reply that the observation shows. -/
def quotes (written : Option Str) : Except EnvError ExecResult → List Str
  | .error (.os .timeout) => []
  | .error (.os (.other _ text)) => [text]
  | .error (.runtime text) => if timedOut <+: text then [text] else []
  | .error .cancelled => []
  | .ok result =>
    match written with
    | some path =>
      if result.returnCode = 0 then [path] else [result.stdout.getD [], result.stderr.getD []]
    | none => [result.stdout.getD [], result.stderr.getD []]

/-- The exceptions that may leave a tool call. -/
inductive Passes : Except EnvError ExecResult → PyError → Prop
  | cancelled : Passes (.error .cancelled) .cancelled
  | runtime {text : Str} (hother : ¬ timedOut <+: text) :
      Passes (.error (.runtime text)) (.runtime text)

section Answer

variable {a : Agent} {written : Option Str} {reply : Except EnvError ExecResult}

theorem clean_output (result : ExecResult) :
    Clean result.output ↔ Clean (result.stdout.getD []) ∧ Clean (result.stderr.getD []) := by
  rw [ExecResult.output, clean_append]
  refine and_congr_right fun _ => ?_
  split
  · rename_i hnil
    rw [hnil]
  · exact clean_lit_append

/-- What an answer reports, and with which success. -/
inductive Reports (a : Agent) (written : Option Str) (reply : Except EnvError ExecResult) : Prop
  | shown {text front : Str} {success : Bool}
      (hanswer : a.answer written (reply.mapError EnvError.raise) = a.observation text success front)
      (hclean : Clean text ↔ ∀ quoted ∈ quotes written reply, Clean quoted)
  | passed {e : PyError} (hpasses : Passes reply e)
      (hanswer : a.answer written (reply.mapError EnvError.raise) = .error e)
      (hclean : ∀ quoted ∈ quotes written reply, Clean quoted)

theorem reports_result (result : ExecResult)
    (hanswer : a.answer written (.ok result) = a.formatResult result)
    (hquotes : quotes written (.ok result) = [result.stdout.getD [], result.stderr.getD []]) :
    Reports a written (.ok result) := by
  refine .shown hanswer ?_
  rw [clean_output, hquotes, List.forall_mem_cons, List.forall_mem_singleton]

/-- **Every reply is reported, or is one that may pass.** -/
theorem answer_reports (a : Agent) (written : Option Str) (reply : Except EnvError ExecResult) :
    Reports a written reply := by
  cases reply with
  | error e =>
    cases e with
    | os fault =>
      cases fault with
      | timeout =>
        refine .shown rfl (iff_of_true ?_ (List.forall_mem_nil _))
        rw [clean_append, clean_lit_append]
        exact ⟨clean_lit _, clean_lit _⟩
      | other type text =>
        refine .shown rfl ?_
        rw [clean_append, quotes, List.forall_mem_singleton]
        refine and_iff_right ?_
        rw [clean_append, clean_append]
        exact ⟨⟨clean_lit _, clean_lit _⟩, clean_lit _⟩
    | runtime text =>
      by_cases htimed : timedOut <+: text
      · refine .shown (if_pos htimed) ?_
        rw [clean_lit_append, quotes, if_pos htimed, List.forall_mem_singleton]
      · refine .passed (.runtime htimed) (if_neg htimed) ?_
        rw [quotes, if_neg htimed]
        exact List.forall_mem_nil _
    | cancelled => exact .passed .cancelled rfl (List.forall_mem_nil _)
  | ok result =>
    cases written with
    | none => exact reports_result result rfl rfl
    | some path =>
      by_cases hcode : result.returnCode = 0
      · refine .shown (if_pos hcode) ?_
        rw [clean_lit_append, quotes]
        simp only [if_pos hcode, List.forall_mem_singleton]
      · exact reports_result result (if_neg hcode) (if_neg hcode)

end Answer

/-! ## Tool calls -/

section Answered

variable (loads : Loads) (a : Agent) (w : World) (name arguments : Str)

/-- A bad call is answered without the environment, only a `RuntimeError` of a command or a
cancellation passes, and a staging directory is removed. -/
structure Answered : Prop where
  refused : (∀ request, ¬ a.Asks loads name arguments request) → ∃ obs,
    executeTool loads a w name arguments = (.ok obs, []) ∧ obs.success = false
  raises : ∀ e, (executeTool loads a w name arguments).1 = .error e → e = .cancelled ∨
    ∃ text before command, e = .runtime text ∧ ¬ timedOut <+: text ∧
      w.exec before command = .error (.runtime text) ∧
        before ++ [.exec command] <+: (executeTool loads a w name arguments).2
  cleanup : ∀ created, (executeTool loads a w name arguments).2.head? = some w.mkdir →
    w.exec [] (.mkdir w.stagingDir) = .ok created → created.returnCode = 0 →
      (executeTool loads a w name arguments).2.count (.exec w.cleanup) = 1

/-- The texts of the caller and of the environment that the observation quotes. -/
inductive Quoted : Str → Prop
  | arguments {text : Str} (hnames : a.Names loads name arguments text) : Quoted text
  | reply {command : Command} {text : Str} (hasks : a.Asks loads name arguments (.run command))
      (htext : text ∈ quotes none (w.exec [] command)) : Quoted text
  | write {path text : Str} {content : List UInt8} {reply : Except EnvError ExecResult}
      {calls : List Call} (hasks : a.Asks loads name arguments (.write path content))
      (hends : w.Ends a path content reply calls) (htext : text ∈ quotes (some path) reply) :
      Quoted text

/-- `json.loads` stays within the recursion limit, and what is quoted has a UTF-8 form. -/
structure Encodable : Prop where
  depth : loads arguments ≠ .error .recursion
  clean : ∀ text, Quoted loads a w name arguments text → Clean text

variable {loads a w name arguments}

/-- What is asked for is what the code reads. -/
theorem Agent.Asks.eq {request : Request} (h : a.Asks loads name arguments request) :
    a.request loads name arguments = .ok request := by
  cases h with
  | bash hname hload hitem husable =>
    simp only [Agent.request, hload, Agent.fields, hname, if_true, item, hitem, bashCommand, bind,
      Except.bind, if_neg (fun hbad => not_usable.2 hbad husable), pure, Except.pure]
  | read hname hload hitem husable hwithin hrelative =>
    simp only [Agent.request, hload, Agent.fields, hname, if_neg read_ne_bash, if_true, item, hitem,
      a.safePath_eq husable, if_pos hwithin, Agent.fileCommand, hrelative, bind, Except.bind, pure,
      Except.pure]
  | write hname hload hitem husable hwithin hcontent hclean =>
    simp only [Agent.request, hload, Agent.fields, hname, if_neg write_ne_bash, if_neg write_ne_read,
      if_true, item, hitem, a.safePath_eq husable, if_pos hwithin, hcontent, fileContent,
      encode_ok hclean, bind, Except.bind, pure, Except.pure]

theorem answered_deep (hload : loads arguments = .error .recursion) :
    ¬ Answered loads a w name arguments := by
  intro h
  have hraised : (executeTool loads a w name arguments).1 = .error .recursion := by
    simp only [executeTool, Agent.request, hload]
  rcases h.raises _ hraised with hcancelled | ⟨_, _, _, hruntime, _⟩
  · cases hcancelled
  · cases hruntime

theorem answered_refused {type : String} {text : Str}
    (hrequest : a.request loads name arguments = .error (.invalid type text))
    (hnone : ∀ request, ¬ a.Asks loads name arguments request) :
    Answered loads a w name arguments ↔ Clean text := by
  have hshown : Clean (lit "ERROR: " ++ lit type ++ lit ": " ++ text) ↔ Clean text := by
    rw [clean_append, clean_append, clean_append]
    exact and_iff_right ⟨⟨clean_lit _, clean_lit _⟩, clean_lit _⟩
  have hexecute : executeTool loads a w name arguments =
      (a.observation (lit "ERROR: " ++ lit type ++ lit ": " ++ text) false [], []) := by
    rw [executeTool, hrequest]
  rw [← hshown]
  constructor
  · intro h
    obtain ⟨obs, hobs, -⟩ := h.refused hnone
    exact (observation_ok_iff false []).1 ⟨obs, (congrArg Prod.fst hexecute).symm.trans
      (congrArg Prod.fst hobs)⟩
  · intro hclean
    obtain ⟨obs, hobs, hfailed⟩ := observation_ok (a := a) hclean false []
    rw [hobs] at hexecute
    refine ⟨fun _ => ⟨obs, hexecute, hfailed⟩, fun e he => ?_, fun _ hhead => ?_⟩
    · rw [hexecute] at he
      cases he
    · rw [hexecute] at hhead
      cases hhead

/-- Behind an accepted call, only what may pass is raised if what is quoted has a UTF-8 form. -/
theorem raises_iff {written : Option Str} {reply : Except EnvError ExecResult} {calls : List Call}
    (hexecute : executeTool loads a w name arguments =
      (a.answer written (reply.mapError EnvError.raise), calls))
    (hruntime : ∀ text, reply = .error (.runtime text) → ∃ before command,
      w.exec before command = .error (.runtime text) ∧ before ++ [.exec command] <+: calls) :
    (∀ e, (executeTool loads a w name arguments).1 = .error e → e = .cancelled ∨
      ∃ text before command, e = .runtime text ∧ ¬ timedOut <+: text ∧
        w.exec before command = .error (.runtime text) ∧
          before ++ [.exec command] <+: (executeTool loads a w name arguments).2) ↔
      ∀ quoted ∈ quotes written reply, Clean quoted := by
  rw [hexecute]
  cases answer_reports a written reply with
  | @shown text front success hanswer hclean =>
    rw [← hclean, hanswer]
    constructor
    · intro h
      by_contra hbad
      rcases h _ (observation_error hbad success front) with hcancelled | ⟨_, _, _, hother, _⟩
      · cases hcancelled
      · cases hother
    · intro h e he
      obtain ⟨obs, hobs, -⟩ := observation_ok (a := a) h success front
      cases hobs.symm.trans he
  | passed hpasses hanswer hclean =>
    refine iff_of_true (fun e he => ?_) hclean
    cases hanswer.symm.trans he
    cases hpasses with
    | cancelled => exact .inl rfl
    | @runtime text hother =>
      obtain ⟨before, command, hexec, hprefix⟩ := hruntime text rfl
      exact .inr ⟨text, before, command, rfl, hother, hexec, hprefix⟩

theorem answered_run {command : Command} (hasks : a.Asks loads name arguments (.run command)) :
    Answered loads a w name arguments ↔
      ∀ quoted ∈ quotes none (w.exec [] command), Clean quoted := by
  have hexecute : executeTool loads a w name arguments =
      (a.answer none ((w.exec [] command).mapError EnvError.raise), [.exec command]) := by
    rw [executeTool, hasks.eq]
  have hother : Call.exec command ≠ w.mkdir := by
    cases hasks <;> exact fun h => by cases h
  have hraises := raises_iff hexecute fun text h => ⟨[], command, h, List.prefix_rfl⟩
  refine ⟨fun h => hraises.1 h.raises, fun h => ⟨fun hnone => absurd hasks (hnone _),
    hraises.2 h, fun created hhead => ?_⟩⟩
  rw [hexecute] at hhead
  exact absurd (Option.some.inj hhead) hother

/-- Behind a call of `write_file`, whichever way it ends. -/
theorem write_raises_iff {path : Str} {content : List UInt8} {reply : Except EnvError ExecResult}
    {calls : List Call} (hasks : a.Asks loads name arguments (.write path content))
    (hends : w.Ends a path content reply calls) :
    (executeTool loads a w name arguments).2 = calls ∧
      ((∀ e, (executeTool loads a w name arguments).1 = .error e → e = .cancelled ∨
        ∃ text before command, e = .runtime text ∧ ¬ timedOut <+: text ∧
          w.exec before command = .error (.runtime text) ∧
            before ++ [.exec command] <+: (executeTool loads a w name arguments).2) ↔
        ∀ quoted ∈ quotes (some path) reply, Clean quoted) := by
  have hexecute : executeTool loads a w name arguments =
      (a.answer (some path) (reply.mapError EnvError.raise), calls) := by
    rw [executeTool, hasks.eq]
    simp only [hends.eq]
  refine ⟨congrArg Prod.snd hexecute, raises_iff hexecute fun text h => ?_⟩
  subst h
  exact hends.runtime

theorem answered_write {path : Str} {content : List UInt8}
    (hasks : a.Asks loads name arguments (.write path content)) :
    Answered loads a w name arguments ↔ ∀ reply calls, w.Ends a path content reply calls →
      ∀ quoted ∈ quotes (some path) reply, Clean quoted := by
  have hrelative : ∃ relative, PathText.relpath 47 46 path a.cwd = some relative := by
    cases hasks with
    | @write _ path =>
      obtain ⟨relative, hrelative, -⟩ := a.fileCommand_target path "write" []
      exact ⟨relative, hrelative⟩
  constructor
  · intro h reply calls hends
    exact (write_raises_iff hasks hends).2.1 h.raises
  · intro h
    obtain ⟨reply, calls, hends⟩ : ∃ reply calls, w.Ends a path content reply calls :=
      World.exists_ends hrelative
    obtain ⟨hcalls, hraises⟩ := write_raises_iff hasks hends
    refine ⟨fun hnone => absurd hasks (hnone _), hraises.2 (h reply calls hends),
      fun created _ hmkdir hcode => ?_⟩
    rw [hcalls]
    exact hends.count_cleanup hmkdir hcode

/-- **A bad call is answered and never fatal, exactly if `json.loads` gets through and what is quoted
has a UTF-8 form.** -/
theorem tool_calls_answered (loads : Loads) (a : Agent) (w : World) (name arguments : Str) :
    Answered loads a w name arguments ↔ Encodable loads a w name arguments := by
  have hreads := request_reads a loads name arguments
  generalize hrequest : a.request loads name arguments = outcome at hreads
  cases hreads with
  | deep hload => exact iff_of_false (answered_deep hload) fun h => h.depth hload
  | refused hnone hclean =>
    rw [answered_refused hrequest hnone, hclean]
    constructor
    · intro h
      refine ⟨fun hload => ?_, fun text htext => ?_⟩
      · simp only [Agent.request, hload] at hrequest
        cases hrequest
      · cases htext with
        | arguments hnames => exact h text hnames
        | reply hasks => exact absurd hasks (hnone _)
        | write hasks => exact absurd hasks (hnone _)
    · exact fun h text hnames => h.clean text (.arguments hnames)
  | @accepted request hasks =>
    obtain ⟨fields, hload⟩ := hasks.loads_ok
    have hdepth : loads arguments ≠ .error .recursion := fun h => by cases hload.symm.trans h
    cases request with
    | run command =>
      rw [answered_run hasks]
      refine ⟨fun h => ⟨hdepth, fun text htext => ?_⟩,
        fun h text htext => h.clean text (.reply hasks htext)⟩
      cases htext with
      | arguments hquoted => exact absurd hquoted hasks.not_names
      | reply hasks' htext =>
        cases hasks.eq.symm.trans hasks'.eq
        exact h text htext
      | write hasks' => cases hasks.eq.symm.trans hasks'.eq
    | write path content =>
      rw [answered_write hasks]
      refine ⟨fun h => ⟨hdepth, fun text htext => ?_⟩,
        fun h reply calls hends text htext => h.clean text (.write hasks hends htext)⟩
      cases htext with
      | arguments hquoted => exact absurd hquoted hasks.not_names
      | reply hasks' => cases hasks.eq.symm.trans hasks'.eq
      | write hasks' hends htext =>
        cases hasks.eq.symm.trans hasks'.eq
        exact h _ _ hends text htext

/-! ## A tool name with a surrogate -/

def exampleAgent : Agent := ⟨lit "/app", 20000, 120, .head, rfl, by decide⟩

/-- `json.loads` on an empty object. -/
def exampleLoads : Loads := fun text =>
  if text = lit "\x7b\x7d" then .ok (.dict [])
  else .error (.invalid "JSONDecodeError" "Expecting value: line 1 column 1 (char 0)")

def exampleWorld : World where
  hex := lit "0123456789abcdef0123456789abcdef"
  exec := fun _ _ => .ok ⟨0, none, none⟩
  upload := fun _ _ _ => .ok ()
  makeLocal := none
  writeLocal := none
  removeLocal := none

/-- The name of the unknown tool cannot be reported. -/
theorem unknown_tool_fatal :
    ¬ Answered exampleLoads exampleAgent exampleWorld [0xD800] (lit "\x7b\x7d") := by
  intro h
  have hraised : (executeTool exampleLoads exampleAgent exampleWorld [0xD800]
      (lit "\x7b\x7d")).1 = .error (.invalid "UnicodeEncodeError" (lit ("'utf-8' codec can't " ++
        "encode character '\\ud800' in position 33: surrogates not allowed"))) := by
    rfl
  rcases h.raises _ hraised with hcancelled | ⟨_, _, _, hruntime, _⟩
  · cases hcancelled
  · cases hruntime

end Answered

end ReedCode.ToolCalls
