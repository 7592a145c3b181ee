import LiveQuery.Backend
import LiveQuery.Store.Transitions

/-!
# Sessions

A session runs a store against a backend in memory, under a clock that moves only when a step says
so. Steps are what the holder of the store and the backend's keeper do; a listener can have steps of
its own, to be done each time it is called.

Fetches and timers are tasks. A task waits until the session settles, and then until it is let
through its service's gate, if there is one.
-/

namespace LiveQuery

/-- One step of a session. Queries and listeners go by labels. -/
inductive Step where
  /-- Refer to a query; nothing if its descriptor could not be read. -/
  | refer (label : String) (ref : Option QueryRef)
  | materialize (query : String)
  | snapshot (query : String)
  | peek (query : String)
  /-- Listen to a query, bringing it to life. With each call the listener does the next of its own
  lists of steps. -/
  | subscribe (query label : String) (onCall : List (List Step))
  /-- Listen to a query without bringing it to life. -/
  | subscribeById (query label : String) (onCall : List (List Step))
  | unsubscribe (label : String) (vacuum : Option Bool)
  | refetch (query : String)
  | refetchById (query : String)
  | listeners (query : String)
  | watch (label : String) (onCall : List (List Step))
  | unwatch (label : String)
  | emit (service : String) (change : Change)
  | sink (service : String)
  | flush
  | pending
  | interval
  | services
  | mutate (service method : String) (args : List Json)
  | settle
  | advance (milliseconds : Nat)
  | seed (service : String) (items : List Json)
  | script (service kind : String) (responses : List Response)
  | hold (service : String)
  | release (service : String) (count : Nat)
  | dropStore

inductive Refusal where
  | noQuery | noHandle | noSink | storeDropped | unreadable
  deriving DecidableEq, Repr

inductive Answer where
  | nothing
  | reference (id : QueryId)
  | query (id : QueryId)
  | state (state : QueryState)
  | count (n : Nat)
  | text (s : String)
  | services (services : Table String Service)
  | item (item : Json)
  | failed (failure : Failure)
  | refused (refusal : Refusal)

inductive Delivery where
  | state (query : QueryId) (label : String) (state : QueryState)
  | snapshot (label : String) (services : Table String Service)

/-- A fetch under way: a pager goes with the fetch of a whole list. -/
structure Fetch where
  request : Request
  pager : Pager

/-- What is left to do, first to come first. -/
inductive Frame where
  | work (work : Work)
  /-- The remaining steps of a listener that is being called. -/
  | steps (steps : List Step)
  | subscribe (query : QueryId) (label : String) (onCall : List (List Step))
  /-- Give the listener's handle to its holder. -/
  | keepHandle (label : String) (query : QueryId) (listener : ListenerId)
  | refetch (query : QueryId)
  | emit (service : String) (change : Change)
  /-- Send the next request of a fetch. -/
  | ask (fetch : Fetch)
  /-- Take the answer to the last request of a fetch. -/
  | receive (fetch : Fetch)
  /-- The timer of a window has run out. -/
  | closeWindow (window : Nat)

/-- Lets a fetch through for each permit, in the order in which the fetches came. -/
structure Gate where
  permits : Nat := 0
  waiting : List Fetch := []

structure Audience where
  label : String
  /-- The query it listens to; nothing for a listener of the whole store. -/
  query : Option QueryId
  /-- Its own steps, one list for each call to come. -/
  onCall : List (List Step)

structure Session where
  setup : Setup := {}
  backend : Backend := {}
  store : Store := {}
  /-- Does its owner still hold the store? -/
  held : Bool := true
  /-- Neither the owner nor any task holds the store any longer. -/
  gone : Bool := false
  clock : Nat := 0
  agenda : List Frame := []
  /-- The tasks that can go on when the session settles. -/
  ready : List Frame := []
  /-- Windows and the times at which their timers run out. -/
  timers : List (Nat × Nat) := []
  gates : Table String Gate := ∅
  /-- Fetches that wait at a gate which has been replaced. -/
  stranded : List Fetch := []
  refs : Table String QueryRef := ∅
  handles : Table String (QueryId × ListenerId) := ∅
  watching : Table String ListenerId := ∅
  audience : Table ListenerId Audience := ∅
  /-- The services whose events the backend has been asked to deliver. -/
  sinks : List String := []
  /-- The requests made during the current step. -/
  calls : List Call := []
  /-- The calls of listeners during the current step. -/
  deliveries : List Delivery := []

namespace Session

def push (s : Session) (frames : List Frame) : Session := { s with agenda := frames ++ s.agenda }

def proceed (s : Session) (transition : Store × List Work) : Session :=
  { s with store := transition.1 }.push (transition.2.map .work)

def record (s : Session) (call : Call) : Session := { s with calls := s.calls ++ [call] }

def hasTasks (s : Session) : Bool :=
  !s.ready.isEmpty || !s.timers.isEmpty || !s.stranded.isEmpty ||
    s.gates.values.any fun gate => !gate.waiting.isEmpty

end Session

end LiveQuery
