import LiveQuery.Json.Binary64

/-!
# JSON values

A JSON number is a whole number or a double, and the two are never equal: `1` is not `1.0`.
An object is the list of its members with the names strictly increasing, so two objects with the
same members are the same list whatever order they were written in. Every function of the library
that builds an object keeps that order (`Fields.insert`, `Fields.ofList`).
-/

namespace LiveQuery

inductive Number where
  | int (n : Int)
  | float (x : Binary64)
  deriving DecidableEq, Repr, Inhabited

/-- Equality of numbers of one representation by value. -/
def Number.beq : Number → Number → Bool
  | .int a, .int b => a == b
  | .float a, .float b => a.sameValue b
  | _, _ => false

instance : BEq Number := ⟨Number.beq⟩

def Number.toBinary64 : Number → Binary64
  | .int n => Binary64.ofInt n
  | .float x => x

inductive Json where
  | null
  | bool (b : Bool)
  | number (n : Number)
  | string (s : String)
  | array (items : List Json)
  | object (members : List (String × Json))
  deriving Repr, Inhabited

/-- The members of an object by increasing name. -/
abbrev Fields := List (String × Json)

namespace Json

mutual

/-- Equality of values: numbers by value within one representation, objects by their members. -/
protected def beq : Json → Json → Bool
  | .null, .null => true
  | .bool a, .bool b => a == b
  | .number a, .number b => a == b
  | .string a, .string b => a == b
  | .array as, .array bs => beqItems as bs
  | .object as, .object bs => beqMembers as bs
  | _, _ => false

def beqItems : List Json → List Json → Bool
  | [], [] => true
  | a :: as, b :: bs => Json.beq a b && beqItems as bs
  | _, _ => false

def beqMembers : List (String × Json) → List (String × Json) → Bool
  | [], [] => true
  | (k, a) :: as, (l, b) :: bs => k == l && Json.beq a b && beqMembers as bs
  | _, _ => false

end

instance : BEq Json := ⟨Json.beq⟩

def int (n : Int) : Json := .number (.int n)

def members? : Json → Option Fields
  | .object fs => some fs
  | _ => none

def items? : Json → Option (List Json)
  | .array items => some items
  | _ => none

def bool? : Json → Option Bool
  | .bool b => some b
  | _ => none

def string? : Json → Option String
  | .string s => some s
  | _ => none

def isNull : Json → Bool
  | .null => true
  | _ => false

def int64? : Json → Option Int
  | .number (.int n) =>
    if -0x8000000000000000 ≤ n ∧ n < 0x8000000000000000 then some n else none
  | _ => none

def nat64? : Json → Option Nat
  | .number (.int n) => if 0 ≤ n ∧ n < 0x10000000000000000 then some n.toNat else none
  | _ => none

end Json

end LiveQuery
