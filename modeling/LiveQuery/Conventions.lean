import LiveQuery.Event
import LiveQuery.Filter

/-!
# Conventions of a backend

What the cache has to know about a backend's items: how they are identified, when one is older than
another, which of them a filter selects, and how the metadata of a list follows when an item joins
or leaves it. The standard conventions fit items with `id` and `updatedAt` fields and lists that
report a `total`.
-/

namespace LiveQuery

/-- Says of a filter, if there is one, whether it accepts an item. -/
abbrev Matcher := Option Json → Json → Bool

namespace Matcher

def everything : Matcher := fun _ _ => true
def nothing : Matcher := fun _ _ => false

end Matcher

structure Conventions where
  /-- The id of an item, if it has one. -/
  idOf : Json → Option ItemId
  /-- Is the second item older than the first, which is cached? -/
  isStale : Json → Json → Bool
  matcher : Matcher
  /-- The metadata of a list that an item has joined. -/
  itemAdded : Fields → Fields
  /-- The metadata of a list that an item has left. -/
  itemRemoved : Fields → Fields

/-- A sum as 64 bits hold it: past one end it goes on at the other. -/
def wrap64 (n : Int) : Int := n.bmod 0x10000000000000000

/-- Move a whole-number `total` by `delta`, but not below zero; any other `total` stays. -/
def adjustTotal (metadata : Fields) (delta : Int) : Fields :=
  match (Fields.get? metadata "total").bind Json.int64? with
  | some total => Fields.insert metadata "total" (Json.int (max (wrap64 (total + delta)) 0))
  | none => metadata

/-- Items with `id` and `updatedAt`, lists with `total`. -/
def Conventions.standard : Conventions where
  idOf := Item.id?
  isStale := Item.isStale
  matcher := Filter.accepts
  itemAdded metadata := adjustTotal metadata 1
  itemRemoved metadata := adjustTotal metadata (-1)

end LiveQuery
