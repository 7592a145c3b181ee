import LiveQuery.Service.Basic

/-!
# Fetches and the cached state

What a service does when a fetch begins, brings a result or fails, and when a query is taken out of
the cache. Only queries that merge events have memberships; those of the old result end and those of
the new one begin.
-/

namespace LiveQuery.Service

/-- The ids that the index holds for a query: those its result shows, if it merges events. -/
def indexedIds (conv : Conventions) (q : Query) : List ItemId :=
  if q.merges then idsOf conv q.state.shown else []

def fetching (s : Service) (query : QueryId) : Service :=
  { s with queries := s.queries.modify query Query.begun }

def keepItems (conv : Conventions) (entities : Table ItemId Json) (items : List Json) :
    Table ItemId Json :=
  items.foldl
    (fun entities item =>
      match conv.idOf item with
      | some id => entities.insert id item
      | none => entities)
    entities

def fetched (conv : Conventions) (s : Service) (query : QueryId) (data : QueryData)
    (metadata : Fields) : Service :=
  match s.queries.get? query with
  | none => s
  | some q =>
    let current := idsOf conv data.all
    let s' : Service :=
      { s with
        entities := keepItems conv s.entities data.all
        queries := s.queries.modify query (·.landed data metadata) }
    if q.merges then
      -- what is in both results keeps its membership, and so its entity
      let left := (indexedIds conv q).filter (· ∉ current)
      let s' := left.foldl (unindex conv query) s'
      { s' with index := current.foldl (fun index id => index.add id query) s'.index }
    else s'

/-- A fetch of the query has failed. Its result is gone, and its memberships with it. -/
def fetchFailed (conv : Conventions) (s : Service) (query : QueryId) (failure : Failure) :
    Service :=
  match s.queries.get? query with
  | none => s
  | some q =>
    (indexedIds conv q).foldl (unindex conv query)
      { s with queries := s.queries.modify query (·.failed failure) }

/-- Take a query out of the cache with whatever memberships it has; nothing if it is not there. -/
def vacuum? (conv : Conventions) (s : Service) (query : QueryId) : Option Service :=
  (s.queries.get? query).map fun q =>
    (idsOf conv q.state.shown).foldl (unindex conv query)
      { s with queries := s.queries.erase query }

end LiveQuery.Service
