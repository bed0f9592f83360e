import Mathlib.Data.List.Induction
import ReedCode.Lib.FinMap

/-!
# Interned paths

A table gives numbers to paths of labels, one node at a time: a node is the number of its parent
with a label, the root has the number 0, and a new node gets the next number.

* `setdefault`, `internPath` — one node, and a path from some parent on.
* `Valid` — parents come before children, and no two nodes share a number.
* `idOf` — the number of a path from the root; `idOf_injective`: **equal numbers, equal paths.**
* `setdefault_spec`, `internPath_spec` — the table grows, stays valid and then has the path.
-/

set_option autoImplicit false

universe u

namespace Interning

variable {L : Type u} [DecidableEq L]

abbrev Table (L : Type u) [DecidableEq L] := FinMap (Nat × L) Nat

/-- `nodes.setdefault(node, len(nodes) + 1)`. -/
def setdefault (t : Table L) (node : Nat × L) : Nat × Table L :=
  match t.get? node with
  | some id => (id, t)
  | none => (t.size + 1, t.insert node (t.size + 1))

/-- The numbers along a path below a parent. -/
def internPath (t : Table L) (parent : Nat) : List L → List Nat × Table L
  | [] => ([], t)
  | label :: labels =>
    let (id, t) := setdefault t (parent, label)
    let (ids, t) := internPath t id labels
    (id :: ids, t)

/-! ## Valid tables -/

structure Valid (t : Table L) : Prop where
  range : ∀ {node id}, t.get? node = some id → node.1 < id ∧ id ≤ t.size
  injective : ∀ {node node' id}, t.get? node = some id → t.get? node' = some id → node = node'

/-- A later table knows what an earlier one knew. -/
def Extends (t t' : Table L) : Prop := ∀ node id, t.get? node = some id → t'.get? node = some id

theorem valid_empty : Valid (FinMap.empty : Table L) := ⟨nofun, nofun⟩

theorem Extends.refl (t : Table L) : Extends t t := fun _ _ h => h

theorem Extends.trans {t t' t'' : Table L} (h : Extends t t') (h' : Extends t' t'') :
    Extends t t'' :=
  fun node id hget => h' node id (h node id hget)

/-- The number behind a path below a parent. -/
def follow (t : Table L) : Nat → List L → Option Nat
  | parent, [] => some parent
  | parent, label :: labels => (t.get? (parent, label)).bind fun id => follow t id labels

/-- The number of a path from the root. -/
def idOf (t : Table L) (path : List L) : Option Nat := follow t 0 path

theorem follow_append (t : Table L) : ∀ (parent : Nat) (xs ys : List L),
    follow t parent (xs ++ ys) = (follow t parent xs).bind fun id => follow t id ys
  | _, [], _ => rfl
  | parent, x :: xs, ys => by
    rw [List.cons_append, follow, follow]
    cases t.get? (parent, x) with
    | none => rfl
    | some id => exact follow_append t id xs ys

theorem idOf_snoc (t : Table L) (path : List L) (label : L) :
    idOf t (path ++ [label]) = (idOf t path).bind fun id => t.get? (id, label) := by
  rw [idOf, follow_append]
  refine congrArg _ (funext fun id => ?_)
  rw [follow]
  cases t.get? (id, label) <;> rfl

theorem Extends.follow {t t' : Table L} (h : Extends t t') : ∀ {parent : Nat} {path : List L}
    {id : Nat}, follow t parent path = some id → follow t' parent path = some id
  | _, [], _, hid => hid
  | parent, label :: labels, id, hid => by
    rw [Interning.follow, Option.bind_eq_some_iff] at hid
    obtain ⟨next, hget, hrest⟩ := hid
    rw [Interning.follow, h _ _ hget]
    exact Extends.follow h hrest

/-- **Equal numbers, equal paths.** -/
theorem idOf_injective {t : Table L} (hv : Valid t) {p q : List L} {id : Nat}
    (hp : idOf t p = some id) (hq : idOf t q = some id) : p = q := by
  induction p using List.reverseRecOn generalizing q id with
  | nil =>
    cases hp
    rcases List.eq_nil_or_concat' q with rfl | ⟨q, label, rfl⟩
    · rfl
    · rw [idOf_snoc, Option.bind_eq_some_iff] at hq
      obtain ⟨i, -, hget⟩ := hq
      exact absurd (hv.range hget).1 (Nat.not_lt_zero _)
  | append_singleton p label ih =>
    rw [idOf_snoc, Option.bind_eq_some_iff] at hp
    obtain ⟨i, hi, hget⟩ := hp
    rcases List.eq_nil_or_concat' q with rfl | ⟨q, label', rfl⟩
    · cases hq
      exact absurd (hv.range hget).1 (Nat.not_lt_zero _)
    · rw [idOf_snoc, Option.bind_eq_some_iff] at hq
      obtain ⟨j, hj, hget'⟩ := hq
      cases hv.injective hget hget'
      rw [ih hi hj]

/-! ## Growing -/

theorem setdefault_spec {t : Table L} (hv : Valid t) {node : Nat × L} (hparent : node.1 ≤ t.size) :
    Valid (setdefault t node).2 ∧ Extends t (setdefault t node).2 ∧
      (setdefault t node).2.get? node = some (setdefault t node).1 := by
  unfold setdefault
  cases hget : t.get? node with
  | some id => exact ⟨hv, Extends.refl t, hget⟩
  | none =>
    have hsize : (t.insert node (t.size + 1)).size = t.size + 1 := FinMap.size_insert_of_none hget
    have hnew : ∀ {node' id}, (t.insert node (t.size + 1)).get? node' = some id →
        (node' = node ∧ id = t.size + 1) ∨ t.get? node' = some id := by
      intro node' id h
      rw [FinMap.get?_insert] at h
      by_cases he : node = node'
      · rw [if_pos he] at h
        exact Or.inl ⟨he.symm, (Option.some.inj h).symm⟩
      · rw [if_neg he] at h
        exact Or.inr h
    refine ⟨⟨fun {node' id} h => ?_, fun {node' node'' id} h h' => ?_⟩, fun node' id h => ?_,
      FinMap.get?_insert_self _ _ _⟩
    · rw [hsize]
      rcases hnew h with ⟨rfl, rfl⟩ | hold
      · omega
      · have hrange := hv.range hold
        omega
    · rcases hnew h with ⟨rfl, rfl⟩ | hold <;> rcases hnew h' with ⟨rfl, hid⟩ | hold'
      · rfl
      · have hrange := hv.range hold'
        omega
      · have hrange := hv.range hold
        omega
      · exact hv.injective hold hold'
    · rw [FinMap.get?_insert_ne]
      · exact h
      · rintro rfl
        rw [hget] at h
        cases h

/-- A number of the table, or the root. -/
theorem follow_le_size {t : Table L} (hv : Valid t) : ∀ {parent : Nat} {path : List L} {id : Nat},
    parent ≤ t.size → follow t parent path = some id → id ≤ t.size
  | _, [], _, hp, h => by
    cases h
    exact hp
  | _, _ :: _, _, _, h => by
    rw [follow, Option.bind_eq_some_iff] at h
    obtain ⟨next, hget, hrest⟩ := h
    exact follow_le_size hv (hv.range hget).2 hrest

/-- **A path is interned**: the table grows, and each number is that of the path so far. -/
theorem internPath_spec : ∀ {t : Table L} {parent : Nat} (labels : List L), Valid t →
    parent ≤ t.size → Valid (internPath t parent labels).2 ∧
      Extends t (internPath t parent labels).2 ∧
      (internPath t parent labels).1.length = labels.length ∧
      ∀ k < labels.length, (internPath t parent labels).1[k]? =
        follow (internPath t parent labels).2 parent (labels.take (k + 1))
  | t, parent, [], hv, _ => ⟨hv, Extends.refl t, rfl, nofun⟩
  | t, parent, label :: labels, hv, hp => by
    have hnode := @setdefault_spec L _ t hv (parent, label) hp
    rw [internPath]
    generalize setdefault t (parent, label) = r at hnode
    obtain ⟨id, t₁⟩ := r
    obtain ⟨hv₁, hext₁, hget⟩ := hnode
    obtain ⟨hv₂, hext₂, hlength, hids⟩ := internPath_spec labels hv₁ (hv₁.range hget).2
    refine ⟨hv₂, hext₁.trans hext₂, congrArg (· + 1) hlength, fun k hk => ?_⟩
    cases k with
    | zero =>
      rw [List.take_succ_cons, List.take_zero, follow, hext₂ _ _ hget]
      rfl
    | succ k =>
      rw [List.take_succ_cons, follow, hext₂ _ _ hget]
      exact hids k (Nat.lt_of_succ_lt_succ hk)

end Interning
