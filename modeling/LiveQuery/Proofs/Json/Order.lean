import LiveQuery.Json.Order
import Mathlib.Order.Compare

/-!
# The order of values is a total preorder

The order of values is pieced together from the orders of their kinds. It is one lexicographic order
all the same: by kind first, with `null` as the last kind, then by the place of a number among the
doubles, by the text of a string and by the truth of a boolean, where values of other kinds count
alike (`compare_eq`). So it is reflexive, oriented and transitive as each of its parts is.
-/

namespace LiveQuery.Json

/-- The place of a value's kind among all kinds, `null` included. -/
def level : Json → Nat
  | .null => 4
  | v => v.kindRank

/-- The place of a number on the line of doubles. -/
def place : Json → Int
  | .number n => n.toBinary64.place
  | _ => 0

def chars : Json → String
  | .string s => s
  | _ => ""

def truth : Json → Bool
  | .bool b => b
  | _ => false

/-- The order of values is lexicographic. -/
theorem compare_eq : Json.compare =
    compareLex (compareOn level)
      (compareLex (compareOn place) (compareLex (compareOn chars) (compareOn truth))) := by
  funext a b
  cases a <;> cases b <;> try rfl
  case number.number m n =>
    simp [Json.compare, compareLex, compareOn, level, kindRank, place, chars, truth,
      Binary64.compare]
  case string.string s t =>
    simp [Json.compare, compareLex, compareOn, level, kindRank, place, chars, truth]

instance : Std.TransCmp Json.compare := by
  rw [compare_eq]
  infer_instance

end LiveQuery.Json
