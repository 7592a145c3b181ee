import LiveQuery.Query.Identity

/-!
# What a listener sees of a query

The data of a query, its metadata, where it stands in its life, whether a fetch is under way or due,
and the failure of the last fetch.
-/

namespace LiveQuery

inductive QueryData where
  | item (item : Json)
  | list (items : List Json)

namespace QueryData

def all : QueryData → List Json
  | item i => [i]
  | list is => is

def toJson : QueryData → Json
  | item i => .object [("item", i)]
  | list is => .object [("list", .array is)]

end QueryData

inductive Status where
  | idle | loading | success | error
  deriving DecidableEq, Repr

namespace Status

def name : Status → String
  | idle => "idle"
  | loading => "loading"
  | success => "success"
  | error => "error"

def ofName? : String → Option Status
  | "idle" => some idle
  | "loading" => some loading
  | "success" => some success
  | "error" => some error
  | _ => none

end Status

structure QueryState where
  data : Option QueryData
  metadata : Fields
  status : Status
  isFetching : Bool
  error : Option Failure

namespace QueryState

/-- A query that is to be skipped is idle; any other waits for its first fetch. -/
def initial (skip : Bool) : QueryState where
  data := none
  metadata := []
  status := if skip then .idle else .loading
  isFetching := !skip
  error := none

def shown (s : QueryState) : List Json := (s.data.map QueryData.all).getD []

def items (s : QueryState) : List Json :=
  match s.data with
  | some (.list is) => is
  | _ => []

def item? (s : QueryState) : Option Json :=
  match s.data with
  | some (.item i) => some i
  | _ => none

def toJson (s : QueryState) : Json :=
  .object
    [("data", Json.ofOption QueryData.toJson s.data),
     ("error", Json.ofOption Failure.toJson s.error),
     ("isFetching", .bool s.isFetching),
     ("meta", .object s.metadata),
     ("status", .string s.status.name)]

end QueryState

end LiveQuery
