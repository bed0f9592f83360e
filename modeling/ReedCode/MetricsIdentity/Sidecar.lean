import ReedCode.Lib.Descendants
import ReedCode.Lib.FinMap
import ReedCode.Lib.Lines
import ReedCode.Lib.Runs
import ReedCode.PyText
import ReedCode.Value

/-!
# The identity sidecar

`metrics_identity.py`: `read_process`, `process_tree`, `socket_binding` and `ProcessMonitor`.

* `Proc` — what `/proc` holds while it is observed.
* `processTree` — the processes that descend from the backend, sorted.
* `ProcessMonitor.snapshot` — the body, if the observation is the pinned one.

Numbers, decimal digits and UUIDs are read by `Python`.
-/

set_option autoImplicit false

namespace ReedCode.MetricsIdentity

open Descendants

abbrev Text := List Char

/-! ## What is observed -/

structure Python where
  /-- `int(text)`; `none` is a `ValueError`. -/
  int : Text → Option Int
  /-- `int(text, 16)`. -/
  hex : Text → Option Int
  /-- The characters that `\d` matches. -/
  decimal : Char → Bool
  /-- Whether `uuid.UUID(text)` is accepted. -/
  uuid : Text → Bool

structure Process where
  pid : Int
  parentPid : Int
  startTicks : Int
  deriving DecidableEq, Repr

/-- A link in a `fd` directory. -/
inductive Descriptor where
  | gone
  | unreadable
  | link (target : Text)
  deriving DecidableEq, Repr

/-- A file that is read as a whole. -/
inductive File where
  | absent
  | unreadable
  | text (content : Text)
  deriving DecidableEq, Repr

structure Proc where
  names : List Text
  stat : Int → File
  tcp : File
  tcp6 : File
  fd : Int → Option (List Descriptor)
  bootId : File

section Observe

variable (P : Python) (proc : Proc)

/-- `text.isdecimal()`. -/
def isDecimal (text : Text) : Bool := !text.isEmpty && text.all P.decimal

/-! ## Processes -/

def readProcess (pid : Int) : Option Process :=
  match proc.stat pid with
  | .text raw => do
    let fields := PyText.words (((PyText.afterLast ')' raw).getD raw).drop 1)
    let first ← P.int (raw.takeWhile (· ≠ ' '))
    if first ≠ pid ∨ fields.length < 20 ∨ fields.head? ∈ [some ['Z'], some ['X']] then none
    else
      let parentPid ← fields[1]?.bind P.int
      let startTicks ← fields[19]?.bind P.int
      return ⟨pid, parentPid, startTicks⟩
  | _ => none

/-- The processes that can be read. -/
def found : List Process :=
  proc.names.filterMap fun name =>
    if isDecimal P name then (P.int name).bind (readProcess P proc) else none

/-- `processes`, a dictionary by pid. -/
def processes : FinMap Int Process := .ofList ((found P proc).map fun p => (p.pid, p))

def processTree (backendPid : Int) : Except String (List Process) :=
  let processes := (processes P proc).entries.map Prod.snd
  if backendPid ∉ processes.map (·.pid) then .error "Backend unavailable"
  else
    let selected := closure Process.pid Process.parentPid processes backendPid
    .ok ((processes.filter (·.pid ∈ selected)).insertionSort fun a b => a.pid ≤ b.pid)

/-! ## Sockets -/

/-- The inode of a line of a socket table, if it listens on the port. -/
def listening (port : Int) (line : Text) : Except String (Option Text) :=
  let fields := PyText.words line
  match fields[9]? with
  | none => .ok none
  | some inode =>
    if fields[3]? ≠ some ['0', 'A'] then .ok none
    else
      match (fields[1]?.bind (PyText.afterLast ':')).map P.hex with
      | none => .error "IndexError"
      | some none => .error "ValueError"
      | some (some local_) => .ok (if local_ = port then some inode else none)

def tableListeners (port : Int) : File → Except String (List Text)
  | .absent => .ok []
  | .unreadable => .error "OSError"
  | .text content => do
    let inodes ← ((Lines.splitlines content).drop 1).mapM (listening P port)
    return inodes.filterMap id

def listeners (port : Int) : Except String (List Text) := do
  let four ← tableListeners P port proc.tcp
  let six ← tableListeners P port proc.tcp6
  return four ++ six

/-- `re.fullmatch(r"socket:\[(\d+)\]", target)`. -/
def socketInode (target : Text) : Option Text :=
  let rest := target.drop 8
  if "socket:[".toList <+: target ∧ rest.getLast? = some ']' ∧ isDecimal P rest.dropLast = true then
    some rest.dropLast
  else none

def descriptorInode : Descriptor → Except String (Option Text)
  | .gone => .ok none
  | .unreadable => .error "OSError"
  | .link target => .ok (socketInode P target)

def ownedBy (pid : Int) : Except String (List Text) :=
  match proc.fd pid with
  | none => .error "OSError"
  | some descriptors => do
    let inodes ← descriptors.mapM (descriptorInode P)
    return inodes.filterMap id

/-- `sorted` of a set of strings. -/
def sortedSet (texts : List Text) : List String :=
  (texts.map String.ofList).dedup.insertionSort (· ≤ ·)

def socketBinding (port : Int) (pids : List Int) : Except String (List String) := do
  let listeners ← listeners P proc port
  let owned ← pids.mapM (ownedBy P proc)
  if listeners = [] ∨ ¬ listeners ⊆ owned.flatten then
    .error "Metrics listener is outside the watched process tree"
  else .ok (sortedSet listeners)

end Observe

/-! ## The monitor -/

structure Observed where
  bootId : String
  processes : List Process
  backendPid : Int
  enginePids : List Int
  metricsPort : Int
  metricsSocketInodes : List String
  deriving DecidableEq, Repr

def observe (P : Python) (proc : Proc) (backendPid : Int) (enginePids : List Int)
    (metricsPort : Int) : Except String Observed := do
  let tree ← processTree P proc backendPid
  let pids := tree.map (·.pid)
  Except.failIf (¬ enginePids ⊆ pids) "Every declared engine must be a live backend descendant"
  let bootId ← match proc.bootId with
    | .text content => .ok (PyText.strip content)
    | _ => .error "OSError"
  Except.failIf (P.uuid bootId = false) "ValueError"
  let inodes ← socketBinding P proc metricsPort pids
  return ⟨String.ofList bootId, tree, backendPid, enginePids, metricsPort, inodes⟩

structure ProcessMonitor where
  backendPid : Int
  enginePids : List Int
  metricsPort : Int
  monitorId : String
  pinned : Observed
  deriving DecidableEq, Repr

namespace ProcessMonitor

/-- `ProcessMonitor(backend_pid, engine_pids, metrics_port)`; `monitorId` is the new UUID. -/
def create (P : Python) (proc : Proc) (monitorId : String) (backendPid : Int)
    (enginePids : List Int) (metricsPort : Int) : Except String ProcessMonitor := do
  Except.failIf (backendPid ≤ 0 ∨ enginePids = [] ∨ ∃ pid ∈ enginePids, pid ≤ 0 ∨ pid = backendPid)
    "Provide a backend PID and at least one separate engine PID"
  Except.failIf (¬ enginePids.Nodup ∨ ¬ (1 ≤ metricsPort ∧ metricsPort ≤ 65535))
    "Invalid engine PIDs or metrics port"
  let engines := enginePids.insertionSort (· ≤ ·)
  let pinned ← observe P proc backendPid engines metricsPort
  return ⟨backendPid, engines, metricsPort, monitorId, pinned⟩

def processValue (p : Process) : Value :=
  .dict [("pid", .int p.pid), ("parent_pid", .int p.parentPid), ("start_ticks", .int p.startTicks)]

/-- The body without the challenge. -/
def snapshot (P : Python) (proc : Proc) (m : ProcessMonitor) :
    Except String (List (String × Value)) := do
  let observed ← observe P proc m.backendPid m.enginePids m.metricsPort
  Except.failIf (observed ≠ m.pinned) "Watched processes or metrics listener changed"
  return [("schema_version", .int 1), ("monitor_id", .str m.monitorId),
    ("boot_id", .str observed.bootId), ("processes", .list (observed.processes.map processValue)),
    ("backend_pid", .int observed.backendPid),
    ("engine_pids", .list (observed.enginePids.map .int)),
    ("metrics_port", .int observed.metricsPort),
    ("metrics_socket_inodes", .list (observed.metricsSocketInodes.map .str))]

/-- `{**monitor.snapshot(), "challenge": challenge}`. -/
def challenged (body : List (String × Value)) (challenge : String) : Value :=
  .dict (body ++ [("challenge", .str challenge)])

end ProcessMonitor

end ReedCode.MetricsIdentity
