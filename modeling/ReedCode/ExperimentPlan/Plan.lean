import ReedCode.Lib.Digits
import ReedCode.Lib.Runs

/-!
# Experiment plans

`build_plan` of `run_experiments.py` and of `run_dynamo.py`: which runs of which tasks under which
conditions, in which order.

* `Shuffle` — `rng.shuffle`: some rearrangement, which one is left open.
* `Retention.buildPlan` — three conditions, orders drawn from a pool that is refilled when empty.
* `Prefill.buildPlan` — off and on, orders cut from a shuffled list.
-/

set_option autoImplicit false

universe u

namespace ReedCode.ExperimentPlan

/-- What `rng.shuffle` does to a list. -/
structure Shuffle (α : Type u) where
  run : List α → List α
  perm : ∀ xs, (run xs).Perm xs

/-- The runs of one task and repeat, in the order of their conditions. -/
structure Block (C : Type u) where
  task : String
  repeatNumber : Nat
  order : List C
  deriving DecidableEq, Repr

/-- `enumerate(xs, 1)`. -/
def enumerate {α : Type u} (xs : List α) : List (α × Nat) := xs.zipIdx 1

namespace Retention

inductive Condition where
  | head20k
  | head2k
  | headTail2k
  deriving DecidableEq, Repr

/-- `CONDITIONS`, by its keys. -/
def conditions : List Condition := [.head20k, .head2k, .headTail2k]

def Condition.name : Condition → String
  | .head20k => "head_20k"
  | .head2k => "head_2k"
  | .headTail2k => "head_tail_2k"

def Condition.capChars : Condition → Nat
  | .head20k => 20000
  | .head2k => 2000
  | .headTail2k => 2000

def Condition.outputPolicy : Condition → String
  | .head20k => "head"
  | .head2k => "head"
  | .headTail2k => "head_tail"

/-- `itertools.permutations(CONDITIONS)`. -/
def permutations : List (List Condition) :=
  [[.head20k, .head2k, .headTail2k], [.head20k, .headTail2k, .head2k],
    [.head2k, .head20k, .headTail2k], [.head2k, .headTail2k, .head20k],
    [.headTail2k, .head20k, .head2k], [.headTail2k, .head2k, .head20k]]

structure Run where
  runId : String
  task : String
  repeatNumber : Nat
  block : Nat
  position : Nat
  condition : Condition
  capChars : Nat
  outputPolicy : String
  deriving DecidableEq, Repr

/-- The blocks of a task: how often the pool was filled, the pool, and the repeats to come. -/
def taskBlocks (shuffles : Nat → Shuffle (List Condition)) (task : String) :
    List Nat → Nat → List (List Condition) → Except String (Nat × List (Block Condition))
  | [], draws, _ => .ok (draws, [])
  | repeatNumber :: rest, draws, orders =>
    let refilled := if orders = [] then (draws + 1, (shuffles draws).run permutations)
      else (draws, orders)
    match refilled.2.getLast? with
    | none => .error "pop from empty list"
    | some order => do
      let (draws, blocks) ← taskBlocks shuffles task rest refilled.1 refilled.2.dropLast
      return (draws, ⟨task, repeatNumber, order⟩ :: blocks)

/-- The blocks of all tasks; every task starts with an empty pool. -/
def allBlocks (shuffles : Nat → Shuffle (List Condition)) (repeats : Nat) :
    List String → Nat → Except String (List (Block Condition))
  | [], _ => .ok []
  | task :: tasks, draws => do
    let (draws, blocks) ← taskBlocks shuffles task (List.range' 1 repeats) draws []
    let rest ← allBlocks shuffles repeats tasks draws
    return blocks ++ rest

def runId (block repeatNumber : Nat) (condition : Condition) : String :=
  "b" ++ String.ofList (Digits.zeroPad 3 block) ++ "_r" ++
    String.ofList (Digits.zeroPad 0 repeatNumber) ++ "_" ++ condition.name

def blockRuns (block : Block Condition × Nat) : List Run :=
  (enumerate block.1.order).map fun entry =>
    ⟨runId block.2 block.1.repeatNumber entry.1, block.1.task, block.1.repeatNumber, block.2,
      entry.2, entry.1, entry.1.capChars, entry.1.outputPolicy⟩

def buildPlan (shuffles : Nat → Shuffle (List Condition)) (shuffle : Shuffle (Block Condition))
    (tasks : List String) (repeats : Nat) : Except String (List Run) := do
  Except.failIf (repeats < 1 ∨ tasks = [] ∨ ¬ tasks.Nodup)
    "Use distinct tasks and a positive repetition count"
  let blocks ← allBlocks shuffles repeats tasks 0
  return (enumerate (shuffle.run blocks)).flatMap blockRuns

end Retention

namespace Prefill

inductive Condition where
  | off
  | on
  deriving DecidableEq, Repr

def Condition.name : Condition → String
  | .off => "off"
  | .on => "on"

structure Run where
  runId : String
  repeatNumber : Nat
  position : Nat
  condition : Condition
  task : String
  capChars : Nat
  outputPolicy : String
  deriving DecidableEq, Repr

/-- `[("off", "on"), ("on", "off")] * ((repeats + 1) // 2)`. -/
def orders (repeats : Nat) : List (List Condition) :=
  (List.replicate ((repeats + 1) / 2) [[Condition.off, .on], [.on, .off]]).flatten

def taskBlocks (shuffle : Shuffle (List Condition)) (repeats : Nat) (task : String) :
    List (Block Condition) :=
  (enumerate ((shuffle.run (orders repeats)).take repeats)).map fun entry =>
    ⟨task, entry.2, entry.1⟩

/-- The blocks of all tasks; the shuffles are counted. -/
def allBlocks (shuffles : Nat → Shuffle (List Condition)) (repeats : Nat) (tasks : List String) :
    List (Block Condition) :=
  tasks.zipIdx.flatMap fun entry => taskBlocks (shuffles entry.2) repeats entry.1

def runId (task : String) (repeatNumber : Nat) (condition : Condition) : String :=
  task ++ "_r" ++ String.ofList (Digits.zeroPad 2 repeatNumber) ++ "_" ++ condition.name

def blockRuns (block : Block Condition) : List Run :=
  (enumerate block.order).map fun entry =>
    ⟨runId block.task block.repeatNumber entry.1, block.repeatNumber, entry.2, entry.1, block.task,
      20000, "head"⟩

def buildPlan (shuffles : Nat → Shuffle (List Condition)) (shuffle : Shuffle (Block Condition))
    (tasks : List String) (repeats : Nat) : Except String (List Run) := do
  Except.failIf (repeats < 1 ∨ tasks = [] ∨ ¬ tasks.Nodup) "Use distinct tasks and positive repeats"
  let blocks := allBlocks shuffles repeats tasks
  let blocks := if 1 < tasks.length then shuffle.run blocks else blocks
  return blocks.flatMap blockRuns

end Prefill

end ReedCode.ExperimentPlan
