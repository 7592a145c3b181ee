import LiveQuery.Json.Fields

/-!
# Ordering JSON values

Numbers are ordered by the doubles nearest to them, strings by code points, `false` before `true`.
Values of different kinds are ordered by kind: numbers, strings, booleans, then arrays and objects,
which are all alike; `null` comes after everything.
-/

namespace LiveQuery

namespace Json

/-- The place of a value's kind among the kinds that are not compared with each other. -/
def kindRank : Json → Nat
  | .number _ => 0
  | .string _ => 1
  | .bool _ => 2
  | _ => 3

/-- Order two values. -/
protected def compare : Json → Json → Ordering
  | .null, .null => .eq
  | .null, _ => .gt
  | _, .null => .lt
  | .number a, .number b => a.toBinary64.compare b.toBinary64
  | .string a, .string b => Ord.compare a b
  | .bool a, .bool b => Ord.compare a b
  | a, b => Ord.compare a.kindRank b.kindRank

end Json

end LiveQuery
