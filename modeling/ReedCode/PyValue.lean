import ReedCode.Value
import Mathlib.Data.List.Sort
import Mathlib.Data.Rat.Cast.Order

/-!
# Python's operations on dynamically typed values

* `pyEq` — `==`: numbers by value whatever their type, objects up to the order of their
  fields, and nothing equal that holds a NaN.  It compares normal forms (`norm`), so that it is
  symmetric and transitive (`pyEq_symm`, `pyEq_trans`).
* `len?`, `elements?`, `slice?`, `truthy` — `len(v)`, iteration, `v[i:j]` and `bool(v)`; `none`
  where the operation raises.
-/

set_option autoImplicit false

namespace ReedCode.Value

/-- `event.get(key)`. -/
def get (event : Value) (key : String) : Value := (event.get? key).getD null

/-! ## Equality -/

mutual

/-- What `==` looks at; `none` for a value that is not equal to itself. -/
def norm : Value → Option Value
  | null => some null
  | bool b => some (float (if b then 1 else 0))
  | int n => some (float n)
  | float q => some (float q)
  | str s => some (str s)
  | bytes b => some (bytes b)
  | ext tag => if tag = "nan" then none else some (ext tag)
  | list items => (normItems items).map list
  | dict fields => (normFields fields).map fun fields =>
      dict (fields.insertionSort fun a b => a.1 ≤ b.1)

def normItems : List Value → Option (List Value)
  | [] => some []
  | x :: xs => (norm x).bind fun y => (normItems xs).map (y :: ·)

def normFields : List (String × Value) → Option (List (String × Value))
  | [] => some []
  | (k, x) :: xs => (norm x).bind fun y => (normFields xs).map ((k, y) :: ·)

end

/-- `a == b`. -/
def pyEq (a b : Value) : Bool := a.norm.isSome && a.norm == b.norm

theorem pyEq_iff {a b : Value} : a.pyEq b = true ↔ ∃ n, a.norm = some n ∧ b.norm = some n := by
  rw [pyEq, Bool.and_eq_true, beq_iff_eq, Option.isSome_iff_exists]
  constructor
  · rintro ⟨⟨n, ha⟩, hb⟩
    exact ⟨n, ha, hb ▸ ha⟩
  · rintro ⟨n, ha, hb⟩
    exact ⟨⟨n, ha⟩, ha.trans hb.symm⟩

theorem pyEq_symm {a b : Value} (h : a.pyEq b = true) : b.pyEq a = true := by
  obtain ⟨n, ha, hb⟩ := pyEq_iff.1 h
  exact pyEq_iff.2 ⟨n, hb, ha⟩

theorem pyEq_trans {a b c : Value} (hab : a.pyEq b = true) (hbc : b.pyEq c = true) :
    a.pyEq c = true := by
  obtain ⟨n, ha, hb⟩ := pyEq_iff.1 hab
  obtain ⟨m, hb', hc⟩ := pyEq_iff.1 hbc
  rw [hb, Option.some.injEq] at hb'
  exact pyEq_iff.2 ⟨n, ha, hb' ▸ hc⟩

example : (list [int 1, dict [("b", float 2), ("a", null)]]).pyEq
    (list [bool true, dict [("a", null), ("b", int 2)]]) = true := by decide +kernel

/-! ## Sequences -/

/-- `len(v)`. -/
def len? : Value → Option Nat
  | str s => some s.length
  | bytes b => some b.length
  | list items => some items.length
  | dict fields => some fields.length
  | _ => none

/-- What `for x in v` goes through. -/
def elements? : Value → Option (List Value)
  | str s => some (s.toList.map fun c => str (String.singleton c))
  | bytes b => some (b.map fun x => int x.toNat)
  | list items => some items
  | dict fields => some (fields.map fun f => str f.1)
  | _ => none

/-- `v[i:j]`. -/
def slice? (v : Value) (i j : Nat) : Option Value :=
  match v with
  | str s => some (str (String.ofList ((s.toList.take j).drop i)))
  | bytes b => some (bytes ((b.take j).drop i))
  | list items => some (list ((items.take j).drop i))
  | _ => none

/-- `bool(v)`. -/
def truthy : Value → Bool
  | null => false
  | bool b => b
  | int n => n != 0
  | float q => q != 0
  | str s => s != ""
  | bytes b => !b.isEmpty
  | ext _ => true
  | list items => !items.isEmpty
  | dict fields => !fields.isEmpty

/-- A slice inside a value has the length of its range. -/
theorem len?_slice? {v w : Value} {n i j : Nat} (hlen : v.len? = some n) (hij : i ≤ j) (hj : j ≤ n)
    (h : v.slice? i j = some w) : w.len? = some (j - i) := by
  cases v <;> simp only [slice?, len?, Option.some.injEq, reduceCtorEq] at h hlen
  all_goals
    subst h
    simp only [len?, String.length_ofList, List.length_drop, List.length_take, Option.some.injEq]
  · rw [String.length_toList]
    omega
  all_goals omega

end ReedCode.Value
