import ReedCode.HarborAgent.Loop
import ReedCode.Lib.PathText
import ReedCode.PyStr

/-!
# Tool calls

`execute_tool`, `write_file`, `format_result`, `safe_path` and `file_command` of the Harbor agent, and
`retain_output` and `observation` of `output_policy.py`.  The environment, the local files and
`json.loads` answer as they are given; an answer of the environment can depend on the calls before.

* `retainOutput`, `Agent.observation` — what is kept of an output.
* `Agent.request` — the arguments of a call.
* `World.writeFile`, `executeTool` — what a call does, with the calls to the environment.
-/

set_option autoImplicit false

namespace ReedCode.ToolCalls

open Str (lit Clean)
open HarborAgent (OutputPolicy Retention)

/-! ## Values and exceptions -/

/-- What `json.loads` returns, as far as a tool tells values apart. -/
inductive Json where
  | str (text : Str)
  | dict (fields : List (Str × Json))
  | other

/-- What `json.loads` raises: a `ValueError`, whose text quotes nothing of the document, or a
`RecursionError`. -/
inductive LoadError where
  | invalid (type text : String)
  | recursion

abbrev Loads := Str → Except LoadError Json

/-- An `OSError`. -/
inductive OsFault where
  | timeout
  | other (type : String) (text : Str)
  deriving DecidableEq

/-- What the environment raises. -/
inductive EnvError where
  | os (fault : OsFault)
  | runtime (text : Str)
  | cancelled
  deriving DecidableEq

inductive PyError where
  /-- A `ValueError`, `TypeError` or `KeyError`. -/
  | invalid (type : String) (text : Str)
  | recursion
  | os (fault : OsFault)
  | runtime (text : Str)
  | cancelled
  deriving DecidableEq

def EnvError.raise : EnvError → PyError
  | .os fault => .os fault
  | .runtime text => .runtime text
  | .cancelled => .cancelled

def valueError (text : Str) : PyError := .invalid "ValueError" text

/-! ## Observations -/

structure ToolObservation where
  text : Str
  success : Bool
  retention : Retention

/-- The agent behind its `setup`. -/
structure Agent where
  cwd : Str
  maxToolOutput : Nat
  toolTimeout : Nat
  outputPolicy : OutputPolicy
  absolute : PathText.isabs 47 cwd = true
  limit_pos : 0 < maxToolOutput

/-- `text.encode("utf-8")`. -/
def encode (text : Str) : Except PyError (List UInt8) :=
  (text.encode).mapError (.invalid "UnicodeEncodeError")

/-- The front and the back of a text that are kept. -/
def retained (text : Str) (limit : Nat) (policy : OutputPolicy) : Str × Str :=
  if limit < text.length then
    let headCount := match policy with
      | .head => limit
      | .headTail => (limit + 1) / 2
    (text.take headCount, text.drop (text.length - (limit - headCount)))
  else (text, [])

def retainOutput (text : Str) (limit : Nat) (policy : OutputPolicy) :
    Except PyError (Str × Retention) := do
  let (head, tail) := retained text limit policy
  let visible := if limit < text.length then
      head ++ lit "\n...[output truncated]" ++ (if tail = [] then [] else lit "\n" ++ tail)
    else text
  let original ← encode text
  let kept ← encode (head ++ tail)
  return (visible,
    { outputPolicy := policy.text, outputLimitChars := limit
      truncated := decide (limit < text.length)
      originalOutputChars := text.length, originalOutputBytes := original.length
      retainedOutputChars := (head ++ tail).length, retainedOutputBytes := kept.length })

def Agent.observation (a : Agent) (text : Str) (success : Bool) (front : Str) :
    Except PyError ToolObservation := do
  let (visible, metadata) ← retainOutput text a.maxToolOutput a.outputPolicy
  return ⟨front ++ visible, success, metadata⟩

/-! ## Arguments -/

def bashTool : Str := lit "bash"

def readTool : Str := lit "read_file"

def writeTool : Str := lit "write_file"

/-- A command of the environment: one of the model's, `mkdir -m 700 dir`, the file tool with its
arguments, or `rm -f -- file && rmdir -- dir`. -/
inductive Command where
  | bash (text : Str)
  | mkdir (dir : Str)
  | fileTool (root relative : Str) (operation : String) (source : Str)
  | cleanup (file dir : Str)
  deriving DecidableEq

/-- `fields[key]`. -/
def item (fields : List (Str × Json)) (key : String) : Except PyError Json :=
  match fields.lookup (lit key) with
  | some value => .ok value
  | none => .error (.invalid "KeyError" (lit ("'" ++ key ++ "'")))

/-- `posixpath.normpath(self.cwd)`. -/
def Agent.base (a : Agent) : Str := PathText.normpath 47 46 a.cwd

/-- `posixpath.normpath(posixpath.join(base, path))`. -/
def Agent.target (a : Agent) (path : Str) : Str :=
  PathText.normpath 47 46 (PathText.join 47 a.base path)

def Agent.safePath (a : Agent) : Json → Except PyError Str
  | .str path =>
    if path.blank = true ∨ 0 ∈ path then
      .error (valueError (lit "path must be a nonempty string without NUL bytes"))
    else
      match PathText.commonpath 47 46 a.base (a.target path) with
      | none => .error (valueError (lit "Can't mix absolute and relative paths"))
      | some common =>
        if common ≠ a.base then .error (valueError (lit "Path must stay inside " ++ a.base))
        else .ok (a.target path)
  | _ => .error (valueError (lit "path must be a nonempty string without NUL bytes"))

def Agent.fileCommand (a : Agent) (path : Str) (operation : String) (source : Str) :
    Except PyError Command :=
  match PathText.relpath 47 46 path a.cwd with
  | none => .error (valueError (lit "no path specified"))
  | some relative => .ok (.fileTool a.cwd relative operation source)

/-- What a call asks for. -/
inductive Request where
  | run (command : Command)
  | write (path : Str) (content : List UInt8)
  deriving DecidableEq

def bashCommand : Json → Except PyError Command
  | .str command =>
    if command.blank = true ∨ 0 ∈ command then
      .error (valueError (lit "command must be a nonempty string without NUL bytes"))
    else .ok (.bash command)
  | _ => .error (valueError (lit "command must be a nonempty string without NUL bytes"))

def fileContent : Json → Except PyError (List UInt8)
  | .str content => encode content
  | _ => .error (valueError (lit "content must be a string"))

/-- The request in the arguments of a tool. -/
def Agent.fields (a : Agent) (name : Str) (fields : List (Str × Json)) : Except PyError Request :=
  if name = bashTool then do
    let command ← bashCommand (← item fields "command")
    return .run command
  else if name = readTool then do
    let path ← a.safePath (← item fields "path")
    let command ← a.fileCommand path "read" []
    return .run command
  else if name = writeTool then do
    let path ← a.safePath (← item fields "path")
    let content ← fileContent (← item fields "content")
    return .write path content
  else .error (valueError (lit "Unknown tool: " ++ name))

def Agent.request (a : Agent) (loads : Loads) (name arguments : Str) : Except PyError Request :=
  match loads arguments with
  | .error (.invalid type text) => .error (.invalid type (lit text))
  | .error .recursion => .error .recursion
  | .ok (.dict fields) => a.fields name fields
  | .ok _ => .error (valueError (lit "Tool arguments must be a JSON object"))

/-! ## The environment -/

/-- A call to the environment. -/
inductive Call where
  | exec (command : Command)
  | upload (content : List UInt8) (target : Str)
  deriving DecidableEq

structure ExecResult where
  returnCode : Int
  stdout : Option Str
  stderr : Option Str
  deriving DecidableEq

/-- What a call of a tool meets: the name of the staging directory, the answers of the environment
behind the calls before, and what goes wrong with the local copy of a file. -/
structure World where
  hex : Str
  exec : List Call → Command → Except EnvError ExecResult
  upload : List Call → List UInt8 → Str → Except EnvError Unit
  makeLocal : Option OsFault
  writeLocal : Option OsFault
  removeLocal : Option OsFault

namespace World

variable (w : World)

def stagingDir : Str := lit "/tmp/reedcode-write-" ++ w.hex

def stagingFile : Str := w.stagingDir ++ lit "/content"

/-- The command in front of the staging. -/
def mkdir : Call := .exec (.mkdir w.stagingDir)

def cleanup : Command := .cleanup w.stagingFile w.stagingDir

/-- The upload; a `RuntimeError` becomes an `OSError`. -/
def uploadStep (content : List UInt8) (calls : List Call) : Except PyError Unit × List Call :=
  (match w.upload calls content w.stagingFile with
    | .error (.runtime text) =>
      .error (.os (.other "OSError" (lit "write_file upload failed: " ++ text)))
    | .error e => .error e.raise
    | .ok () => .ok (),
    calls ++ [.upload content w.stagingFile])

/-- The block of the local directory, whose removal comes last. -/
def localCopy (content : List UInt8) (calls : List Call) : Except PyError Unit × List Call :=
  match w.makeLocal with
  | some fault => (.error (.os fault), calls)
  | none =>
    let (result, calls) := match w.writeLocal with
      | some fault => (.error (.os fault), calls)
      | none => w.uploadStep content calls
    match w.removeLocal with
    | some fault => (.error (.os fault), calls)
    | none => (result, calls)

/-- The body of the `try`. -/
def staged (a : Agent) (path : Str) (content : List UInt8) (calls : List Call) :
    Except PyError ExecResult × List Call :=
  match w.localCopy content calls with
  | (.error e, calls) => (.error e, calls)
  | (.ok (), calls) =>
    match a.fileCommand path "write" w.stagingFile with
    | .error e => (.error e, calls)
    | .ok command => ((w.exec calls command).mapError EnvError.raise, calls ++ [.exec command])

def writeFile (a : Agent) (path : Str) (content : List UInt8) :
    Except PyError ExecResult × List Call :=
  match w.exec [] (.mkdir w.stagingDir) with
  | .error e => (.error e.raise, [w.mkdir])
  | .ok created =>
    if created.returnCode ≠ 0 then (.ok created, [w.mkdir])
    else
      let (result, calls) := w.staged a path content [w.mkdir]
      match w.exec calls w.cleanup with
      | .error .cancelled => (.error .cancelled, calls ++ [.exec w.cleanup])
      | _ => (result, calls ++ [.exec w.cleanup])

end World

/-! ## Answers -/

/-- The output of a command as it is reported. -/
def ExecResult.output (result : ExecResult) : Str :=
  result.stdout.getD [] ++
    (if result.stderr.getD [] = [] then [] else lit "\nSTDERR:\n" ++ result.stderr.getD [])

def Agent.formatResult (a : Agent) (result : ExecResult) : Except PyError ToolObservation :=
  a.observation result.output (decide (result.returnCode = 0))
    (lit "EXIT CODE: " ++ lit (toString result.returnCode) ++ lit "\n")

/-- How the text of a `RuntimeError` begins that wraps a timeout. -/
def timedOut : Str := lit "Command timed out after "

/-- What is made of the outcome of a call; `written` is the path of `write_file`. -/
def Agent.answer (a : Agent) (written : Option Str) :
    Except PyError ExecResult → Except PyError ToolObservation
  | .error (.os .timeout) =>
    a.observation (lit "ERROR: command timed out after " ++ Str.number a.toolTimeout ++
      lit " seconds") false []
  | .error (.os (.other type text)) =>
    a.observation (lit "ERROR: " ++ lit type ++ lit ": " ++ text) false []
  | .error (.runtime text) =>
    if timedOut <+: text then a.observation (lit "ERROR: " ++ text) false []
    else .error (.runtime text)
  | .error e => .error e
  | .ok result =>
    match written with
    | some path =>
      if result.returnCode = 0 then a.observation (lit "Successfully wrote " ++ path) true []
      else a.formatResult result
    | none => a.formatResult result

/-- `execute_tool`, with the calls to the environment. -/
def executeTool (loads : Loads) (a : Agent) (w : World) (name arguments : Str) :
    Except PyError ToolObservation × List Call :=
  match a.request loads name arguments with
  | .error (.invalid type text) =>
    (a.observation (lit "ERROR: " ++ lit type ++ lit ": " ++ text) false [], [])
  | .error e => (.error e, [])
  | .ok (.run command) =>
    (a.answer none ((w.exec [] command).mapError EnvError.raise), [.exec command])
  | .ok (.write path content) =>
    (a.answer (some path) (w.writeFile a path content).1, (w.writeFile a path content).2)

end ReedCode.ToolCalls
