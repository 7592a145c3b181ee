import LiveQuery.Service.Fetching

/-!
# Merging events

Each event first changes the entities, unless it is rejected: an event whose item has no id, or an
update older than the cached entity, has no effect at all. The item is then merged into every query
that follows events item by item. The index says which of them hold the item, the query's filter
says which should, and the four cases are `Effect`.
-/

namespace LiveQuery

inductive Effect where
  /-- The item was in the result and no longer belongs there. -/
  | leaves
  /-- The item is in the result and takes its new form. -/
  | stays
  /-- The item was not in the result and now belongs there. -/
  | joins
  | unaffected
  deriving DecidableEq, Repr

namespace Query

/-- The effect of a change on a query, given whether the query holds the item. Items join only
lists that have been fetched. -/
def effect (q : Query) (holds : Bool) (change : Change) : Effect :=
  let belongs := change.kind != .removed && q.accepts change.item
  if !q.merges then .unaffected
  else if holds then (if belongs then .stays else .leaves)
  else if belongs && q.descriptor.method == .find && q.state.data.isSome then .joins
  else .unaffected

/-- Change the items of a list; a single item and missing data stay as they are. -/
def mapList (q : Query) (f : List Json → List Json) : Query :=
  match q.state.data with
  | some (.list items) => { q with state := { q.state with data := some (.list (f items)) } }
  | _ => q

def withData (q : Query) (data : Option QueryData) : Query :=
  { q with state := { q.state with data } }

def withMetadata (q : Query) (metadata : Fields) : Query :=
  { q with state := { q.state with metadata } }

def drop (conv : Conventions) (q : Query) (id : ItemId) : Query :=
  match q.descriptor.method with
  | .get => q.withData none
  | .find =>
    let q := q.mapList (List.filter fun item => conv.idOf item != some id)
    q.withMetadata (conv.itemRemoved q.state.metadata)

def replace (conv : Conventions) (q : Query) (id : ItemId) (item : Json) : Query :=
  match q.descriptor.method with
  | .get => q.withData (some (.item item))
  | .find => q.mapList (List.map fun old => if conv.idOf old == some id then item else old)

def append (conv : Conventions) (q : Query) (item : Json) : Query :=
  match q.state.data with
  | some (.list items) =>
    (q.withData (some (.list (items ++ [item])))).withMetadata (conv.itemAdded q.state.metadata)
  | _ => q

def merge (conv : Conventions) (q : Query) (id : ItemId) (item : Json) : Effect → Query
  | .leaves => q.drop conv id
  | .stays => q.replace conv id item
  | .joins => q.append conv item
  | .unaffected => q

end Query

namespace Service

def effectOn (s : Service) (id : ItemId) (change : Change) (query : QueryId) (q : Query) : Effect :=
  q.effect (query ∈ s.index.holders id) change

def affected (s : Service) (id : ItemId) (change : Change) (effects : List Effect) :
    List QueryId :=
  (s.queries.entries.filter fun e => s.effectOn id change e.1 e.2 ∈ effects).map Prod.fst

/-- Is a change to be discarded because the cached item is newer? Only updates can come late. -/
def isLate (conv : Conventions) (s : Service) (id : ItemId) (change : Change) : Bool :=
  match change.kind with
  | .created | .removed => false
  | .updated | .patched =>
    match s.entities.get? id with
    | some cached => conv.isStale cached change.item
    | none => false

/-- The id under which a change takes effect; nothing if the change is rejected. -/
def admits? (conv : Conventions) (s : Service) (change : Change) : Option ItemId :=
  match conv.idOf change.item with
  | some id => if s.isLate conv id change then none else some id
  | none => none

def mergeChange (conv : Conventions) (s : Service) (id : ItemId) (change : Change) : Service :=
  let entities :=
    if change.kind = .removed then s.entities.erase id else s.entities.insert id change.item
  let queries := s.queries.map fun query q =>
    q.merge conv id change.item (s.effectOn id change query q)
  -- memberships change by what the queries were before the change
  let leaving := s.affected id change [.leaves]
  let holders := (s.index.holders id).filter (· ∉ leaving) ++ s.affected id change [.joins]
  { entities :=
      -- an entity that no query held before the change stays
      if s.index.contains id && holders.isEmpty && !shownByAny conv queries id then
        entities.erase id
      else entities
    queries
    index := s.index.set id holders }

/-- What a run of changes has done to a service. -/
structure Merged where
  service : Service
  /-- The queries whose result was affected, in the order in which they first were. -/
  touched : List QueryId := []
  /-- How many changes were not rejected. -/
  admitted : Nat := 0

def Merged.step (conv : Conventions) (m : Merged) (change : Change) : Merged :=
  match m.service.admits? conv change with
  | none => m
  | some id =>
    let affected := m.service.affected id change [.leaves, .stays, .joins]
    { service := m.service.mergeChange conv id change
      touched := m.touched ++ affected.filter (· ∉ m.touched)
      admitted := m.admitted + 1 }

def mergeAll (conv : Conventions) (s : Service) (changes : List Change) : Merged :=
  changes.foldl (Merged.step conv) { service := s }

def refetching (s : Service) : List QueryId :=
  (s.queries.entries.filter fun e => e.2.config.realtime == .refetch).map Prod.fst

end Service

end LiveQuery
