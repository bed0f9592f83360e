import ReedCode.FileTools.Paths
import ReedCode.Lib.Inodes
import ReedCode.Lib.Runs

/-!
# The file tool

`FILE_TOOL_SCRIPT`, one system call after the other, between the steps of another process.

* `scriptStep` — the next call of the script.  A call can fail in any way; where a path other than
  a component of the target is resolved, any inode can come out (`Choice`).
* `Action` — a step of the script, or the other process puts something new under a name, takes a
  name away or moves one.

Opening and closing of descriptors is left out beyond the calls that can fail; `sys.stdout` takes
what it is given.
-/

set_option autoImplicit false

namespace ReedCode.FileTools

open PosixPath Inodes

/-! ## States -/

inductive Phase where
  | start
  | openRoot
  | mkdir (parent : Ino) (part : Path) (rest : List Path)
  | enter (parent : Ino) (part : Path) (rest : List Path)
  | openTarget (parent : Ino) (part : Path)
  | statTarget (fd : Ino)
  | openSource (fd : Ino)
  | statSource (fd source : Ino)
  | truncate (fd source : Ino)
  | copy (fd source : Ino) (position : Nat)
  | print (fd : Ino) (position : Nat)
  | finished (copied : Bool)
  /-- `SystemExit`; `copied` once the file has been truncated. -/
  | failed (copied : Bool) (message : String)
  deriving DecidableEq, Repr

structure State where
  tree : FileTree Path
  phase : Phase
  /-- A component of the target was resolved through a symlink. -/
  followed : Bool
  /-- The inodes that were read and written, the latest in front. -/
  reads : List Ino
  writes : List Ino
  stdout : Inodes.Bytes

def State.init (tree : FileTree Path) : State := ⟨tree, .start, false, [], [], []⟩

/-- What the kernel decides in one call. -/
structure Choice where
  /-- The error of a call that fails. -/
  fault : Option String
  /-- Where a path leads that is not a component of the target, and a symlink. -/
  resolved : Option Ino
  /-- How much is copied, less one byte. -/
  size : Nat
  deriving DecidableEq, Repr

/-! ## The script -/

section Script

variable (argv : Argv) (c : Choice) (s : State)

def directoryFlags : Flags :=
  { write := false, create := false, directory := true, noFollow := true, nonblock := false }

def targetFlags : Flags :=
  { write := argv.operation == "write", create := argv.operation == "write", directory := false,
    noFollow := true, nonblock := true }

def sourceFlags : Flags :=
  { write := false, create := false, directory := false, noFollow := true, nonblock := true }

/-- `except (OSError, ValueError) as error`. -/
def State.fail (error : String) : State := { s with phase := .failed false ("ERROR: " ++ error) }

/-- The loop over `parts`: a parent directory, or the file. -/
def toward (parent : Ino) (part : Path) (rest : List Path) : Phase :=
  if rest = [] then .openTarget parent part
  else if argv.operation = "write" then .mkdir parent part rest
  else .enter parent part rest

/-- A call that opens a component of the target. -/
def State.opened (next : Ino → Phase) :
    Option (Except String (FileTree Path × Handle)) → Option State
  | none => none
  | some (.error error) => some (s.fail error)
  | some (.ok (tree, handle)) =>
    some { s with tree, phase := next handle.ino, followed := s.followed || handle.followed }

/-- `stat.S_ISREG(os.fstat(fd).st_mode)`. -/
def State.isRegular (fd : Ino) : Bool := (s.tree.content fd).isSome

/-- `ftruncate`, `read`, `write` and `print` on regular files. -/
def State.copyChunk (fd source : Ino) (position : Nat) : State :=
  let chunk := (((s.tree.content source).getD []).drop position).take (c.size + 1)
  if chunk = [] then { s with phase := .finished true, reads := source :: s.reads }
  else
    let old := (s.tree.content fd).getD []
    { s with
      tree := s.tree.write fd (old.take position ++ chunk ++ old.drop (position + chunk.length))
      phase := .copy fd source (position + chunk.length)
      reads := source :: s.reads
      writes := fd :: s.writes }

def State.printChunk (fd : Ino) (position : Nat) : State :=
  let chunk := (((s.tree.content fd).getD []).drop position).take (c.size + 1)
  if chunk = [] then { s with phase := .finished false, reads := fd :: s.reads }
  else
    { s with
      phase := .print fd (position + chunk.length)
      reads := fd :: s.reads
      stdout := s.stdout ++ chunk }

/-- The calls that the kernel does not let fail. -/
def scriptCall : Option State :=
  match s.phase with
  | .start =>
    let parts := argv.relative.splitOn '/'
    if parts.any fun part => [[], ['.'], dotdot].contains part then
      some { s with phase := .failed false "ERROR: expected a file inside the workspace" }
    else some { s with phase := .openRoot }
  | .openRoot =>
    match c.resolved with
    | none => some (s.fail "ENOENT")
    | some root =>
      match argv.relative.splitOn '/', s.tree.openNode directoryFlags root false with
      | part :: rest, some (.ok handle) => some { s with phase := toward argv handle.ino part rest }
      | _, some (.error error) => some (s.fail error)
      | _, _ => none
  | .mkdir parent part rest =>
    match s.tree.mkdirat parent part with
    | .error _ => some { s with phase := .enter parent part rest }
    | .ok tree => some { s with tree, phase := .enter parent part rest }
  | .enter parent part rest =>
    match rest with
    | [] => none
    | next :: later =>
      s.opened (fun fd => toward argv fd next later)
        (s.tree.openat directoryFlags c.resolved parent part)
  | .openTarget parent part =>
    s.opened .statTarget (s.tree.openat (targetFlags argv) c.resolved parent part)
  | .statTarget fd =>
    if s.isRegular fd = false then some (s.fail "file tools require a regular file")
    else if argv.operation ≠ "write" then some { s with phase := .print fd 0 }
    else if s.tree.links fd ≠ 1 then
      some (s.fail "write_file refuses files with multiple hard links")
    else some { s with phase := .openSource fd }
  | .openSource fd =>
    match c.resolved with
    | none => some (s.fail "ENOENT")
    | some source =>
      match s.tree.openNode sourceFlags source false with
      | none => none
      | some (.error error) => some (s.fail error)
      | some (.ok handle) => some { s with phase := .statSource fd handle.ino }
  | .statSource fd source =>
    if s.isRegular source = false then some (s.fail "write_file requires a regular source file")
    else some { s with phase := .truncate fd source }
  | .truncate fd source =>
    some { s with tree := s.tree.truncate fd, phase := .copy fd source 0, writes := fd :: s.writes }
  | .copy fd source position => some (s.copyChunk c fd source position)
  | .print fd position => some (s.printChunk c fd position)
  | .finished _ => none
  | .failed _ _ => none

/-- A call that fails. -/
def scriptFault (error : String) : Option State :=
  match s.phase with
  | .start => none
  | .mkdir parent part rest =>
    if error = "EEXIST" then some { s with phase := .enter parent part rest }
    else some (s.fail error)
  | .copy _ _ _ => some { s with phase := .failed true ("ERROR: " ++ error) }
  | .finished _ => none
  | .failed _ _ => none
  | _ => some (s.fail error)

def scriptStep : Option State :=
  match c.fault with
  | none => scriptCall argv c s
  | some error => scriptFault s error

end Script

/-! ## Steps -/

inductive Action where
  | script (choice : Choice)
  | place (dir : Ino) (name : Path) (node : Node)
  | unlink (dir : Ino) (name : Path)
  | rename (dir : Ino) (name : Path) (dir' : Ino) (name' : Path)
  deriving DecidableEq, Repr

def step (argv : Argv) (s : State) : Action → Option State
  | .script choice => scriptStep argv choice s
  | .place dir name node => some { s with tree := s.tree.place dir name node }
  | .unlink dir name => some { s with tree := s.tree.unlink dir name }
  | .rename dir name dir' name' => some { s with tree := s.tree.rename dir name dir' name' }

end ReedCode.FileTools
