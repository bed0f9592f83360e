import Mathlib.Data.List.Nodup

/-!
# Context variables

A task has its own value of a context variable.  `set` gives a token with the value before, and
`reset` puts that value back; calls nest.

* `ContextVar.copy` — a new task starts with the value of the task that makes it.
* `Balanced` — what is in force is what was set last, and each token holds what was set before;
  kept by `set`, `reset` and `copy`.
-/

set_option autoImplicit false

universe u

/-- The value of the variable in one task, and what was set and not yet reset with its token, the
latest in front. -/
structure ContextVar (V : Type u) where
  value : Option V
  frames : List (V × Option V)
  deriving DecidableEq, Repr

namespace ContextVar

variable {V : Type u}

def new : ContextVar V := ⟨none, []⟩

def copy (c : ContextVar V) : ContextVar V := ⟨c.value, []⟩

def set (c : ContextVar V) (v : V) : ContextVar V := ⟨some v, (v, c.value) :: c.frames⟩

def reset (c : ContextVar V) : ContextVar V :=
  match c.frames with
  | [] => c
  | frame :: rest => ⟨frame.2, rest⟩

/-- What was set last and not yet reset. -/
def top (c : ContextVar V) : Option V := c.frames.head?.map Prod.fst

/-- What is set and not yet reset. -/
def held (c : ContextVar V) : List V := c.frames.map Prod.fst

@[simp] theorem held_new : (new : ContextVar V).held = [] := rfl

@[simp] theorem held_copy (c : ContextVar V) : c.copy.held = [] := rfl

@[simp] theorem held_set (c : ContextVar V) (v : V) : (c.set v).held = v :: c.held := rfl

@[simp] theorem reset_set (c : ContextVar V) (v : V) : (c.set v).reset = c := rfl

theorem held_reset (c : ContextVar V) : c.reset.held = c.held.tail := by
  obtain ⟨value, frames⟩ := c
  cases frames <;> rfl

theorem top_eq_head? (c : ContextVar V) : c.top = c.held.head? := List.head?_map.symm

theorem held_of_top {c : ContextVar V} {v : V} (h : c.top = some v) :
    c.held = v :: c.reset.held := by
  rw [held_reset]
  rw [top_eq_head?] at h
  exact (List.cons_head?_tail h).symm

/-! ## Nesting -/

def BalancedAt : Option V → List (V × Option V) → Prop
  | _, [] => True
  | value, frame :: rest => value = some frame.1 ∧ BalancedAt frame.2 rest

def Balanced (c : ContextVar V) : Prop := BalancedAt c.value c.frames

theorem balanced_new : (new : ContextVar V).Balanced := trivial

theorem balanced_copy (c : ContextVar V) : c.copy.Balanced := trivial

theorem Balanced.set {c : ContextVar V} (h : c.Balanced) (v : V) : (c.set v).Balanced := ⟨rfl, h⟩

theorem Balanced.reset {c : ContextVar V} (h : c.Balanced) : c.reset.Balanced := by
  obtain ⟨value, frames⟩ := c
  cases frames with
  | nil => exact h
  | cons frame rest => exact h.2

/-- **Inside what was set last, that is the value.** -/
theorem Balanced.value {c : ContextVar V} {v : V} (h : c.Balanced) (hv : c.top = some v) :
    c.value = some v := by
  obtain ⟨value, frames⟩ := c
  cases frames with
  | nil => cases hv
  | cons frame rest => exact h.1.trans hv

end ContextVar
