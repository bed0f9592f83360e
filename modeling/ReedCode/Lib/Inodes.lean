import ReedCode.Lib.FinMap
import Mathlib.Order.Lattice
import Mathlib.Order.Nat

/-!
# A tree of inodes

Directory entries, inodes and hard links, with the system calls that take a directory descriptor.

* `FileTree.openat`, `FileTree.mkdirat`, `FileTree.write`, `FileTree.truncate` — the calls.  A symlink that a call
  goes through leads anywhere: `resolved` says where.
* `FileTree.rename`, `FileTree.unlink`, `FileTree.place` — what another process can do to the entries.
* `content_add`, `links_add_le`, `links_rename_le` — none of them changes a file, and only a new
  entry of an inode makes its links more.
-/

set_option autoImplicit false

universe u

namespace ReedCode.Inodes

abbrev Ino := Nat

abbrev Bytes := List UInt8

inductive Node where
  | regular (content : Bytes)
  | directory
  | symlink (target : String)
  | fifo
  deriving DecidableEq, Repr

structure FileTree (N : Type u) where
  entries : FinMap (Ino × N) Ino
  nodes : FinMap Ino Node

/-- The flags of an open; without `write` it is for reading. -/
structure Flags where
  write : Bool
  create : Bool
  directory : Bool
  noFollow : Bool
  nonblock : Bool
  deriving DecidableEq, Repr

/-- An opened inode, and whether the call went through a symlink. -/
structure Handle where
  ino : Ino
  followed : Bool
  deriving DecidableEq, Repr

namespace FileTree

variable {N : Type u} (t : FileTree N)

/-- The bytes of a regular file. -/
def content (ino : Ino) : Option Bytes :=
  match t.nodes.get? ino with
  | some (.regular content) => some content
  | _ => none

/-- `st_nlink` of a file. -/
def links (ino : Ino) : Nat := t.entries.count fun _ child => child == ino

/-- An inode that is not in use. -/
def fresh : Ino := t.nodes.keys.foldl max 0 + 1

/-! ## Calls on open files -/

def write (ino : Ino) (content : Bytes) : FileTree N :=
  { t with nodes := t.nodes.insert ino (.regular content) }

def truncate (ino : Ino) : FileTree N := t.write ino []

/-- Open an inode whose name has been resolved; `none` is a call that does not return. -/
def openNode (flags : Flags) (ino : Ino) (followed : Bool) : Option (Except String Handle) :=
  match t.nodes.get? ino with
  | none => some (.error "ENOENT")
  | some (.symlink _) => some (.error "ELOOP")
  | some .directory => some (if flags.write then .error "EISDIR" else .ok ⟨ino, followed⟩)
  | some (.regular _) => some (if flags.directory then .error "ENOTDIR" else .ok ⟨ino, followed⟩)
  | some .fifo =>
    if flags.directory then some (.error "ENOTDIR")
    else if flags.nonblock then some (.ok ⟨ino, followed⟩)
    else none

/-! ## Calls on names -/

section Names

variable [DecidableEq N]

/-- A new inode under a name; what stood there loses it. -/
def add (dir : Ino) (name : N) (node : Node) : FileTree N where
  entries := t.entries.insert (dir, name) t.fresh
  nodes := t.nodes.insert t.fresh node

def openat (flags : Flags) (resolved : Option Ino) (dir : Ino) (name : N) :
    Option (Except String (FileTree N × Handle)) :=
  match t.entries.get? (dir, name) with
  | none =>
    if flags.create then some (.ok (t.add dir name (.regular []), ⟨t.fresh, false⟩))
    else some (.error "ENOENT")
  | some ino =>
    match t.nodes.get? ino, flags.noFollow, resolved with
    | some (.symlink _), true, _ => some (.error "ELOOP")
    | some (.symlink _), false, none => some (.error "ENOENT")
    | some (.symlink _), false, some ino' =>
      (t.openNode flags ino' true).map fun r => r.map fun h => (t, h)
    | _, _, _ => (t.openNode flags ino false).map fun r => r.map fun h => (t, h)

def mkdirat (dir : Ino) (name : N) : Except String (FileTree N) :=
  match t.entries.get? (dir, name) with
  | none => .ok (t.add dir name .directory)
  | some _ => .error "EEXIST"

/-! ## Other processes -/

/-- Put something new under a name, whatever stood there. -/
def place (dir : Ino) (name : N) (node : Node) : FileTree N := t.add dir name node

def unlink (dir : Ino) (name : N) : FileTree N := { t with entries := t.entries.erase (dir, name) }

def rename (dir : Ino) (name : N) (dir' : Ino) (name' : N) : FileTree N :=
  match t.entries.get? (dir, name) with
  | none => t
  | some ino => { t with entries := (t.entries.erase (dir, name)).insert (dir', name') ino }

end Names

/-! ## Contents -/

theorem le_foldl_max : ∀ {keys : List Ino} {start ino : Ino},
    ino ≤ start ∨ ino ∈ keys → ino ≤ keys.foldl max start
  | [], _, _, h => by
    rcases h with h | h
    · exact h
    · cases h
  | key :: keys, start, ino, h => by
    rw [List.foldl_cons]
    refine le_foldl_max ?_
    rcases h with h | h
    · exact Or.inl (h.trans (le_max_left _ _))
    · rcases List.mem_cons.1 h with rfl | h
      · exact Or.inl (le_max_right _ _)
      · exact Or.inr h

theorem nodes_fresh : t.nodes.get? t.fresh = none := by
  rw [← FinMap.not_mem_keys]
  intro hmem
  have hle : t.nodes.keys.foldl max 0 + 1 ≤ t.nodes.keys.foldl max 0 := le_foldl_max (Or.inr hmem)
  exact Nat.not_succ_le_self _ hle

variable {t}

theorem content_eq_some {ino : Ino} {content : Bytes} :
    t.content ino = some content ↔ t.nodes.get? ino = some (.regular content) := by
  unfold FileTree.content
  split
  · rename_i c h
    rw [h]
    simp
  · rename_i h
    constructor
    · intro hnone
      cases hnone
    · intro hsome
      exact absurd hsome (h content)

theorem ne_fresh_of_content {ino : Ino} {content : Bytes} (h : t.content ino = some content) :
    ino ≠ t.fresh := by
  rintro rfl
  rw [content_eq_some, t.nodes_fresh] at h
  cases h

theorem content_write (ino other : Ino) (content : Bytes) :
    (t.write ino content).content other = if ino = other then some content else t.content other := by
  by_cases h : ino = other
  · subst h
    rw [if_pos rfl, content_eq_some, write, FinMap.get?_insert_self]
  · rw [if_neg h, FileTree.content, write, FinMap.get?_insert_ne _ _ h]
    rfl

theorem openNode_ok {flags : Flags} {ino : Ino} {followed : Bool} {h : Handle}
    (hok : t.openNode flags ino followed = some (.ok h)) :
    h = ⟨ino, followed⟩ ∧ (flags.directory = true → t.nodes.get? ino = some .directory) := by
  unfold openNode at hok
  split at hok
  · cases hok
  · cases hok
  · rename_i hnode
    split at hok
    · cases hok
    · cases hok
      exact ⟨rfl, fun _ => hnode⟩
  · split at hok
    · cases hok
    · rename_i hdir
      cases hok
      exact ⟨rfl, fun h => absurd h hdir⟩
  · split at hok
    · cases hok
    · rename_i hdir
      split at hok
      · cases hok
        exact ⟨rfl, fun h => absurd h hdir⟩
      · cases hok

section Names

variable [DecidableEq N] {dir dir' : Ino} {name name' : N}

/-- A new inode changes no file. -/
theorem content_add {node : Node} {ino : Ino} {content : Bytes} (h : t.content ino = some content) :
    (t.add dir name node).content ino = some content := by
  have hne := ne_fresh_of_content h
  rw [content_eq_some] at h ⊢
  rw [add, FinMap.get?_insert_ne _ _ (Ne.symm hne)]
  exact h

theorem content_rename (ino : Ino) : (t.rename dir name dir' name').content ino = t.content ino := by
  unfold rename
  split <;> rfl

/-! ## Links -/

theorem links_add_le {node : Node} {ino : Ino} (h : ino ≠ t.fresh) :
    (t.add dir name node).links ino ≤ t.links ino := by
  have hle := FinMap.count_insert_le t.entries (fun _ child => child == ino) (dir, name) t.fresh
  rw [if_neg (by simpa using Ne.symm h)] at hle
  exact hle

theorem links_unlink_le (ino : Ino) : (t.unlink dir name).links ino ≤ t.links ino :=
  List.Sublist.countP_le List.filter_sublist

/-- An entry that is moved is one link as before. -/
theorem links_rename_le (ino : Ino) : (t.rename dir name dir' name').links ino ≤ t.links ino := by
  unfold rename
  cases hentry : t.entries.get? (dir, name) with
  | none => exact le_rfl
  | some child =>
    have hins := FinMap.count_insert_le (t.entries.erase (dir, name))
      (fun _ child => child == ino) (dir', name') child
    have herase := FinMap.count_erase_of_some (p := fun _ child => child == ino) hentry
    exact hins.trans (le_of_eq herase)

end Names

end FileTree

end ReedCode.Inodes
