import Mathlib.Data.Rat.Defs

/-!
# Dynamically typed values

The values the sources pass around without a static type: `serde_json::Value` on the Rust
side, and what `json.loads` and `msgpack.unpackb` return on the Python side.  JSON values
use every constructor but `bytes` and `ext`; those stand for MessagePack byte strings and
for the remaining values (non-finite floats, extension types), told apart by a tag.
-/

set_option autoImplicit false

namespace ReedCode

inductive Value where
  | null
  | bool (b : Bool)
  | int (n : Int)
  | float (q : Rat)
  | str (s : String)
  | bytes (b : List UInt8)
  | ext (tag : String)
  | list (items : List Value)
  | dict (fields : List (String × Value))
  deriving Repr, Inhabited

namespace Value

mutual

/-- Equality of values is decided along their structure. -/
def decEq : (a b : Value) → Decidable (a = b)
  | null, b => by cases b <;> first | exact isTrue rfl | exact isFalse nofun
  | bool x, b => by
    cases b
    case bool y => exact decidable_of_iff (x = y) ⟨congrArg bool, fun h => by cases h; rfl⟩
    all_goals exact isFalse nofun
  | int x, b => by
    cases b
    case int y => exact decidable_of_iff (x = y) ⟨congrArg int, fun h => by cases h; rfl⟩
    all_goals exact isFalse nofun
  | float x, b => by
    cases b
    case float y => exact decidable_of_iff (x = y) ⟨congrArg float, fun h => by cases h; rfl⟩
    all_goals exact isFalse nofun
  | str x, b => by
    cases b
    case str y => exact decidable_of_iff (x = y) ⟨congrArg str, fun h => by cases h; rfl⟩
    all_goals exact isFalse nofun
  | bytes x, b => by
    cases b
    case bytes y => exact decidable_of_iff (x = y) ⟨congrArg bytes, fun h => by cases h; rfl⟩
    all_goals exact isFalse nofun
  | ext x, b => by
    cases b
    case ext y => exact decidable_of_iff (x = y) ⟨congrArg ext, fun h => by cases h; rfl⟩
    all_goals exact isFalse nofun
  | list x, b => by
    cases b
    case list y =>
      exact @decidable_of_iff _ _ ⟨congrArg list, fun h => by cases h; rfl⟩ (decEqList x y)
    all_goals exact isFalse nofun
  | dict x, b => by
    cases b
    case dict y =>
      exact @decidable_of_iff _ _ ⟨congrArg dict, fun h => by cases h; rfl⟩ (decEqDict x y)
    all_goals exact isFalse nofun

def decEqList : (a b : List Value) → Decidable (a = b)
  | [], [] => isTrue rfl
  | [], _ :: _ => isFalse nofun
  | _ :: _, [] => isFalse nofun
  | x :: xs, y :: ys =>
    @decidable_of_iff _ (x = y ∧ xs = ys) (by simp)
      (@instDecidableAnd _ _ (decEq x y) (decEqList xs ys))

def decEqDict : (a b : List (String × Value)) → Decidable (a = b)
  | [], [] => isTrue rfl
  | [], _ :: _ => isFalse nofun
  | _ :: _, [] => isFalse nofun
  | (k, x) :: xs, (l, y) :: ys =>
    @decidable_of_iff _ (k = l ∧ x = y ∧ xs = ys) (by simp [and_assoc])
      (@instDecidableAnd _ _ (instDecidableEqString k l)
        (@instDecidableAnd _ _ (decEq x y) (decEqDict xs ys)))

end

instance : DecidableEq Value := decEq

/-- The field of an object; `none` for an absent key and for a value that is no object. -/
def get? (v : Value) (key : String) : Option Value :=
  match v with
  | dict fields => fields.lookup key
  | _ => none

def asStr? : Value → Option String
  | str s => some s
  | _ => none

def isNull : Value → Bool
  | null => true
  | _ => false

def isStr : Value → Bool
  | str _ => true
  | _ => false

def isObject : Value → Bool
  | dict _ => true
  | _ => false

/-- The field of an object unless it is absent or null: `get(key).filter(|v| !v.is_null())`. -/
def given? (v : Value) (key : String) : Option Value := (v.get? key).filter fun f => !f.isNull

theorem given?_ne_null {v f : Value} {key : String} (h : v.given? key = some f) : f ≠ null := by
  rintro rfl
  simp [given?, Option.filter_eq_some_iff, isNull] at h

example : (dict [("a", list [int 1, str "x"])]).get? "a" ≠ some (list [int 1, str "y"]) := by decide

end Value

end ReedCode
