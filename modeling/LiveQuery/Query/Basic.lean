import LiveQuery.Conventions

/-!
# Queries

A query is a pair: the descriptor says what to fetch and the configuration how to keep it. Both have
a form as a JSON value, from which the identity of the query is computed.
-/

namespace LiveQuery

inductive Method where
  | get | find
  deriving DecidableEq, Repr

namespace Method

def name : Method → String
  | get => "get"
  | find => "find"

def ofName? : String → Option Method
  | "get" => some get
  | "find" => some find
  | _ => none

end Method

/-- How a query follows the events of its service. -/
inductive RealtimeMode where
  /-- Matching items are merged into the cached result. -/
  | merge
  /-- The query is fetched again when anything on the service changes. -/
  | refetch
  /-- Events are ignored. -/
  | disabled
  deriving DecidableEq, Repr

namespace RealtimeMode

def name : RealtimeMode → String
  | merge => "merge"
  | refetch => "refetch"
  | disabled => "disabled"

def ofName? : String → Option RealtimeMode
  | "merge" => some merge
  | "refetch" => some refetch
  | "disabled" => some disabled
  | _ => none

def label : RealtimeMode → String
  | merge => "Merge"
  | refetch => "Refetch"
  | disabled => "Disabled"

end RealtimeMode

/-- Does a new listener trust the cache or ask the backend? -/
inductive FetchPolicy where
  /-- Cached data is served and fetched again in the background. -/
  | staleWhileRevalidate
  /-- Cached data is served; the backend is asked only if there is none. -/
  | cacheFirst
  /-- The backend is asked each time somebody begins to listen. -/
  | networkOnly
  deriving DecidableEq, Repr

namespace FetchPolicy

def name : FetchPolicy → String
  | staleWhileRevalidate => "swr"
  | cacheFirst => "cache-first"
  | networkOnly => "network-only"

def ofName? : String → Option FetchPolicy
  | "swr" => some staleWhileRevalidate
  | "cache-first" => some cacheFirst
  | "network-only" => some networkOnly
  | _ => none

def label : FetchPolicy → String
  | staleWhileRevalidate => "StaleWhileRevalidate"
  | cacheFirst => "CacheFirst"
  | networkOnly => "NetworkOnly"

end FetchPolicy

def Json.ofOption {α : Type} (toJson : α → Json) : Option α → Json
  | none => .null
  | some a => toJson a

structure Descriptor where
  service : String
  method : Method
  resourceId : Option ItemId
  params : Option Fields

namespace Descriptor

/-- The filter among the params, from which membership in the result follows. -/
def query? (d : Descriptor) : Option Json := d.params.bind (Fields.get? · "query")

def toJson (d : Descriptor) : Json :=
  .object
    [("method", .string d.method.name),
     ("params", Json.ofOption .object d.params),
     ("resourceId", Json.ofOption ItemId.toJson d.resourceId),
     ("serviceName", .string d.service)]

/-- Read a part that may be missing or `null`, and that otherwise has to be well-formed. -/
def optional? {α : Type} (read? : Json → Option α) : Option Json → Option (Option α)
  | none => some none
  | some .null => some none
  | some v => (read? v).map some

def ofParts? (service method resourceId params : Option Json) : Option Descriptor := do
  let service ← service.bind Json.string?
  let method ← method.bind (Json.named? Method.ofName?)
  let resourceId ← optional? ItemId.ofJson? resourceId
  let params ← optional? Json.members? params
  return { service, method, resourceId, params }

/-- Read a descriptor from an object, or from an array of its four parts in order. -/
def ofJson? : Json → Option Descriptor
  | .object fs =>
    ofParts? (Fields.get? fs "serviceName") (Fields.get? fs "method") (Fields.get? fs "resourceId")
      (Fields.get? fs "params")
  | .array [service, method, resourceId, params] =>
    ofParts? (some service) (some method) (some resourceId) (some params)
  | _ => none

end Descriptor

/-- How to keep what was fetched. A matcher given here takes the place of the backend's and is no
part of the query's identity. -/
structure Config where
  skip : Bool := false
  realtime : RealtimeMode := .merge
  fetchPolicy : FetchPolicy := .staleWhileRevalidate
  allPages : Bool := false
  matcher : Option Matcher := none

namespace Config

def toJson (c : Config) : Json :=
  .object
    [("allPages", .bool c.allPages),
     ("fetchPolicy", .string c.fetchPolicy.name),
     ("realtime", .string c.realtime.name),
     ("skip", .bool c.skip)]

def describe (c : Config) : String :=
  "QueryConfig \x7b skip: " ++ toString c.skip ++ ", realtime: " ++ c.realtime.label ++
    ", fetch_policy: " ++ c.fetchPolicy.label ++ ", all_pages: " ++ toString c.allPages ++
    ", matcher: " ++ (if c.matcher.isSome then "Some(\"<fn>\")" else "None") ++ " \x7d"

end Config

end LiveQuery
