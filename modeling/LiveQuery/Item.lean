import LiveQuery.Json.Order
import LiveQuery.Text.Quoted

/-!
# Items and their ids

An item is any JSON value. Its id is a whole number of the signed 64-bit range or a string; the two
kinds are never the same id, although `sameResource` lets a whole number and its decimal text name
the same resource.
-/

namespace LiveQuery

inductive ItemId where
  | int (n : Int)
  | str (s : String)
  deriving DecidableEq, Repr

namespace ItemId

def ofJson? (v : Json) : Option ItemId :=
  match v with
  | .string s => some (.str s)
  | v => v.int64?.map .int

def toJson : ItemId → Json
  | .int n => Json.int n
  | .str s => .string s

def text : ItemId → String
  | .int n => toString n
  | .str s => s

def describe : ItemId → String
  | .int n => "ItemId(" ++ toString n ++ ")"
  | .str s => "ItemId(" ++ Text.quoted s ++ ")"

/-- Do two ids name the same resource? A whole number and its decimal text do. -/
def sameResource : ItemId → ItemId → Bool
  | .int m, .int n => m == n
  | .str s, .str t => s == t
  | .int n, .str s => toString n == s
  | .str s, .int n => toString n == s

/-- Whole numbers by value before strings by code points. -/
protected def compare : ItemId → ItemId → Ordering
  | .int m, .int n => Ord.compare m n
  | .int _, .str _ => .lt
  | .str _, .int _ => .gt
  | .str s, .str t => Ord.compare s t

end ItemId

namespace Item

/-- The id in the field `id`, or in `_id` for an item without a field `id`. -/
def id? (item : Json) : Option ItemId :=
  match item.get? "id" with
  | some v => ItemId.ofJson? v
  | none => (item.get? "_id").bind ItemId.ofJson?

def sameKindOfMark : Json → Json → Bool
  | .number _, .number _ => true
  | .string _, .string _ => true
  | _, _ => false

/-- Compare the marks of two items in the first field where both have marks of one kind; with none,
nothing is stale. -/
def isStaleBy : List String → (cached incoming : Json) → Bool
  | [], _, _ => false
  | field :: fields, cached, incoming =>
    match cached.get? field, incoming.get? field with
    | some old, some new =>
      if sameKindOfMark old new then new.compare old == .lt else isStaleBy fields cached incoming
    | _, _ => isStaleBy fields cached incoming

/-- Is an incoming item older than the cached one by `updatedAt`, else by `updated_at`? -/
def isStale (cached incoming : Json) : Bool := isStaleBy ["updatedAt", "updated_at"] cached incoming

end Item

end LiveQuery
