import LiveQuery.Service.Merging
import LiveQuery.Store.Batch

/-!
# The store

The store holds the cached state of every service and the listeners. An operation on it is one
transition: it changes the state at once and leaves *work* to be done afterwards, in order. Work
that concerns the world outside, such as calling a listener or sending a request, is handed out as a
`Signal`; the outside may operate on the store again before the rest of the work goes on, so a
listener can call back at any time.

Transitions that notify are numbered. A listener is handed the state as it was right after the
transition, and never the state of an earlier transition than one it has already seen.
-/

namespace LiveQuery

structure ListenerId where
  number : Nat
  deriving DecidableEq, Repr

/-- A query as its holder refers to it. -/
structure QueryRef where
  descriptor : Descriptor
  config : Config
  id : QueryId := QueryId.ofQuery descriptor config
  id_eq : id = QueryId.ofQuery descriptor config := by rfl

/-- A fetch to be made for one life of a query. -/
structure Request where
  query : QueryId
  epoch : Nat
  service : String
  method : Method
  resourceId : Option ItemId
  params : Option Fields
  allPages : Bool

/-- What a listener is handed: the state of its query, or of every service. -/
inductive Payload where
  | state (state : QueryState)
  | snapshot (services : Table String Service)

/-- What a store is set up with and never changes. -/
structure Setup where
  conventions : Conventions := Conventions.standard
  /-- How long events wait for others, in milliseconds; with `0` they do not wait. -/
  batchInterval : Nat := 100

/-- Work that a transition leaves to be done after it. -/
inductive Work where
  | call (transition : Nat) (listener : ListenerId) (payload : Payload)
  | launch (request : Request)
  | startTimer (window deadline : Nat)
  | refetch (query : QueryId)
  | apply (service : String) (changes : List Change)
  | bind (service : String)
  | keepBinding (service : String)

/-- What the store asks of the world outside. -/
inductive Signal where
  /-- Call a listener. -/
  | call (listener : ListenerId) (payload : Payload)
  /-- Make a fetch and report its result. -/
  | fetch (request : Request)
  /-- Close a window when its deadline has come. -/
  | timer (window deadline : Nat)
  /-- Deliver the events of a service. -/
  | bind (service : String)
  /-- Give up one delivery of the events of a service. -/
  | unbind (service : String)

structure Store where
  services : Table String Service := ∅
  /-- The service that each query lives in. -/
  homes : Table QueryId String := ∅
  /-- The listeners of queries, in the order in which they came. -/
  listeners : List (QueryId × ListenerId) := []
  /-- The listeners of the whole store, in the order in which they came. -/
  watchers : List ListenerId := []
  /-- How many listeners have ever come. -/
  registered : Nat := 0
  /-- The last transition that each listener was handed. -/
  seen : Table ListenerId Nat := ∅
  /-- How many transitions have notified. -/
  transitions : Nat := 0
  /-- The epoch of the next query that comes to life. -/
  nextEpoch : Nat := 1
  /-- The services whose events are delivered. -/
  bound : List String := []
  batch : Batch := {}

namespace Store

/-- The cached state of a service, which is empty before anything happens on it. -/
def service (s : Store) (name : String) : Service := (s.services.get? name).getD {}

def setService (s : Store) (name : String) (service : Service) : Store :=
  { s with services := s.services.insert name service }

def query? (s : Store) (id : QueryId) : Option Query := do
  let home ← s.homes.get? id
  let service ← s.services.get? home
  service.queries.get? id

def modifyQuery (s : Store) (id : QueryId) (f : Query → Query) : Store :=
  match s.homes.get? id with
  | none => s
  | some home =>
    { s with services := s.services.modify home fun service =>
        { service with queries := service.queries.modify id f } }

def state? (s : Store) (id : QueryId) : Option QueryState := (s.query? id).map Query.state

def listenersOf (s : Store) (id : QueryId) : List ListenerId :=
  (s.listeners.filter fun entry => entry.1 = id).map Prod.snd

def hasListener (s : Store) (id : QueryId) : Bool := !(s.listenersOf id).isEmpty

end Store

end LiveQuery
