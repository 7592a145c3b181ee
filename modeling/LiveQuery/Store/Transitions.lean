import LiveQuery.Store.Basic

/-!
# Transitions of the store

Every operation answers with the store after it and the work it leaves, to be done before any work
that was left earlier. `Work.run` does one piece of work.
-/

namespace LiveQuery.Store

/-- Number a transition and plan the calls it makes: first the listeners of the touched queries, in
the order of the queries, then the listeners of the whole store. -/
def notify (s : Store) (touched : List QueryId) : Store × List Work :=
  let t := s.transitions + 1
  let calls := touched.flatMap fun id =>
    match s.query? id with
    | some q => (s.listenersOf id).map fun l => Work.call t l (.state q.state)
    | none => []
  ({ s with transitions := t },
   calls ++ s.watchers.map fun l => Work.call t l (.snapshot s.services))

/-- Begin a fetch of a query, unless it is unknown or has a fetch under way. -/
def beginFetch? (s : Store) (id : QueryId) : Option (Request × Store) := do
  let home ← s.homes.get? id
  let q ← s.query? id
  if q.inFlight then none
  else
    let request : Request :=
      { query := id
        epoch := q.epoch
        service := home
        method := q.descriptor.method
        resourceId := q.descriptor.resourceId
        params := q.descriptor.params
        allPages := q.config.allPages }
    some (request, s.setService home ((s.service home).fetching id))

/-- Says which items belong to a query. A query for one item admits only that item. -/
def filterOf (setup : Setup) (d : Descriptor) (c : Config) : Json → Bool :=
  let accepts := c.matcher.getD setup.conventions.matcher d.query?
  match d.method, d.resourceId with
  | .get, some wanted => fun item =>
    ((setup.conventions.idOf item).map (·.sameResource wanted)).getD false && accepts item
  | _, _ => accepts

/-- Bring a query to life unless it lives already, and see that its service is bound if it follows
events. -/
def materialize (setup : Setup) (s : Store) (ref : QueryRef) : Store × List Work :=
  let d := ref.descriptor
  let s :=
    if (s.query? ref.id).isSome then s
    else
      let q := Query.new d ref.config (filterOf setup d ref.config) s.nextEpoch
      let service := s.service d.service
      { s.setService d.service { service with queries := service.queries.insert ref.id q } with
        homes := s.homes.insert ref.id d.service
        nextEpoch := s.nextEpoch + 1 }
  (s, if ref.config.realtime = .disabled then [] else [.bind d.service])

def fetchNow (s : Store) (id : QueryId) : Store × List Work :=
  match s.beginFetch? id with
  | some (request, s) =>
    let (s, calls) := s.notify [id]
    (s, calls ++ [.launch request])
  | none => (s, [])

/-- Register a listener of a query. It starts a fetch if the query wants one. -/
def subscribe (s : Store) (id : QueryId) : ListenerId × Store × List Work :=
  let listener : ListenerId := ⟨s.registered + 1⟩
  -- registered first, so that a fetch that begins at once is told to it as well
  let s :=
    { s with
      registered := s.registered + 1
      listeners := s.listeners ++ [(id, listener)] }
  let wants := ((s.query? id).map Query.wantsFetch).getD false
  (listener, if wants then s.fetchNow id else (s, []))

/-- Remove a listener of a query. When the last one goes, the query is taken out of the cache if
`vacuum` says so; by default that is done to network-only queries. -/
def unsubscribe (setup : Setup) (s : Store) (id : QueryId) (listener : ListenerId)
    (vacuum : Option Bool) : Store × List Work :=
  let s := { s with listeners := s.listeners.filter (· ≠ (id, listener)) }
  if s.hasListener id then (s, [])
  else
    match s.homes.get? id with
    | none => (s, [])
    | some home =>
      let networkOnly :=
        ((s.query? id).map fun q => q.config.fetchPolicy == .networkOnly).getD false
      if vacuum.getD networkOnly then
        match (s.service home).vacuum? setup.conventions id with
        | some service => { s.setService home service with homes := s.homes.erase id }.notify []
        | none => (s, [])
      else (s, [])

/-- Ask for a fetch: at once, or right after the one that is under way. -/
def refetch (s : Store) (id : QueryId) : Store × List Work :=
  match s.query? id with
  | none => (s, [])
  | some q =>
    if q.config.skip then (s, [])
    else if q.inFlight then (s.modifyQuery id fun q => { q with dirty := true }, [])
    else s.fetchNow id

def isCurrent (s : Store) (request : Request) : Bool :=
  match (s.services.get? request.service).bind (·.queries.get? request.query) with
  | some q => q.epoch == request.epoch
  | none => false

/-- A fetch has been answered. An answer for an earlier life of the query is dropped; after one that
counts, the query is fetched again if that was asked for meanwhile and somebody still listens. -/
def complete (setup : Setup) (s : Store) (request : Request)
    (answer : Except Failure (QueryData × Fields)) : Store × List Work :=
  if s.isCurrent request then
    let id := request.query
    let service := s.service request.service
    let s := s.setService request.service <|
      match answer with
      | .ok (data, metadata) => service.fetched setup.conventions id data metadata
      | .error failure => service.fetchFailed setup.conventions id failure
    let dirty := ((s.query? id).map Query.dirty).getD false
    -- the wish is forgotten even if nobody is left to fetch for
    let s := s.modifyQuery id fun q => { q with dirty := false }
    match if dirty && s.hasListener id then s.beginFetch? id else none with
    | some (next, s) =>
      let (s, calls) := s.notify [id]
      (s, calls ++ [.launch next])
    | none => s.notify [id]
  else (s, [])

/-- Apply changes of one service in one transition, then fetch again the queries that are fetched
whenever something changes and that somebody listens to. -/
def apply (setup : Setup) (s : Store) (name : String) (changes : List Change) :
    Store × List Work :=
  let merged := (s.service name).mergeAll setup.conventions changes
  let s := s.setService name merged.service
  if merged.admitted = 0 then (s, [])
  else
    -- who listens is looked at now, and not again when the fetches begin
    let again := merged.service.refetching.filter s.hasListener
    let (s, calls) := s.notify merged.touched
    (s, calls ++ again.map .refetch)

def applyEvents (events : List Event) : List Work :=
  (Batch.byService events).map fun group => .apply group.1 group.2

/-- An event has arrived at the time `now`: it is applied at once, or waits for its window. -/
def emit (setup : Setup) (s : Store) (now : Nat) (event : Event) : Store × List Work :=
  if setup.batchInterval = 0 then (s, [.apply event.service [event.change]])
  else
    let (batch, opened) := s.batch.push event
    ({ s with batch }, (opened.map fun w => .startTimer w (now + setup.batchInterval)).toList)

def flush (s : Store) : Store × List Work :=
  let (events, batch) := s.batch.drain
  ({ s with batch }, applyEvents events)

def flushWindow (s : Store) (window : Nat) : Store × List Work :=
  let (events, batch) := s.batch.drainWindow window
  ({ s with batch }, applyEvents events)

def watch (s : Store) : ListenerId × Store :=
  let listener : ListenerId := ⟨s.registered + 1⟩
  (listener, { s with registered := s.registered + 1, watchers := s.watchers ++ [listener] })

def unwatch (s : Store) (listener : ListenerId) : Store :=
  { s with watchers := s.watchers.filter (· ≠ listener) }

/-- Do one piece of work: the store after it, the work it leaves, and what it asks of the outside,
which has to be done before the work it leaves. -/
def run (setup : Setup) (s : Store) : Work → Store × List Work × Option Signal
  | .call t listener payload =>
    if (s.seen.get? listener).getD 0 < t then
      ({ s with seen := s.seen.insert listener t }, [], some (.call listener payload))
    else (s, [], none)
  | .launch request => (s, [], some (.fetch request))
  | .startTimer window deadline => (s, [], some (.timer window deadline))
  | .refetch id =>
    let (s, work) := s.refetch id
    (s, work, none)
  | .apply name changes =>
    let (s, work) := s.apply setup name changes
    (s, work, none)
  | .bind name =>
    if name ∈ s.bound then (s, [], none) else (s, [.keepBinding name], some (.bind name))
  | .keepBinding name =>
    -- it may have been bound by what came in while the backend was asked
    if name ∈ s.bound then (s, [], some (.unbind name))
    else ({ s with bound := s.bound ++ [name] }, [], none)

end LiveQuery.Store
