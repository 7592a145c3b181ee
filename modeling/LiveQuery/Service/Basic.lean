import LiveQuery.Query.State
import LiveQuery.Table

/-!
# The cached state of one service

A service keeps its items once, as entities under their ids, and beside them the queries that read
from it. For the queries that follow events item by item it also keeps, under each item's id, the
queries whose result holds the item: the membership index. An entity that the index knew is dropped
with its last membership, unless some result still shows it.
-/

namespace LiveQuery

structure Query where
  descriptor : Descriptor
  config : Config
  /-- Does an item belong to the result? -/
  accepts : Json → Bool
  /-- Tells this life of the query from earlier ones under the same id. -/
  epoch : Nat
  /-- No fetch has begun yet, although one is due. -/
  pending : Bool
  /-- A further fetch was asked for while one was under way. -/
  dirty : Bool
  state : QueryState

namespace Query

def new (descriptor : Descriptor) (config : Config) (accepts : Json → Bool) (epoch : Nat) :
    Query where
  descriptor
  config
  accepts
  epoch
  pending := !config.skip
  dirty := false
  state := QueryState.initial config.skip

def merges (q : Query) : Bool :=
  q.config.realtime == .merge &&
    !(q.config.fetchPolicy == .networkOnly && q.descriptor.method == .find)

/-- Has a fetch begun that has not landed yet? -/
def inFlight (q : Query) : Bool := !q.pending && q.state.isFetching

def wantsFetch (q : Query) : Bool :=
  q.pending ||
    (q.state.status == .success && q.config.fetchPolicy == .staleWhileRevalidate &&
      !q.state.isFetching) ||
    (q.state.status == .error && !q.state.isFetching)

/-- The query once a fetch has begun; an earlier failure is forgotten. -/
def begun (q : Query) : Query :=
  { q with
    pending := false
    state :=
      { q.state with
        isFetching := true
        status := if q.state.status = .error then .loading else q.state.status
        error := if q.state.status = .error then none else q.state.error } }

def landed (q : Query) (data : QueryData) (metadata : Fields) : Query :=
  { q with state := ⟨some data, metadata, .success, false, none⟩ }

def failed (q : Query) (failure : Failure) : Query :=
  { q with state := ⟨none, [], .error, false, some failure⟩ }

end Query

/-- The queries that hold an item, under the item's id. -/
abbrev Index := Table ItemId (List QueryId)

namespace Index

def holders (index : Index) (id : ItemId) : List QueryId := (index.get? id).getD []

def add (index : Index) (id : ItemId) (query : QueryId) : Index :=
  if query ∈ index.holders id then index else index.insert id (index.holders id ++ [query])

/-- Say which queries hold an item; an item that none holds is not in the index. -/
def set (index : Index) (id : ItemId) (queries : List QueryId) : Index :=
  if queries.isEmpty then index.erase id else index.insert id queries

theorem holders_insert (index : Index) (id : ItemId) (queries : List QueryId) (k : ItemId) :
    holders (Table.insert index id queries) k = if id = k then queries else index.holders k := by
  unfold holders
  rw [Table.get?_insert]
  split <;> rfl

theorem holders_erase (index : Index) (id k : ItemId) :
    holders (Table.erase index id) k = if id = k then [] else index.holders k := by
  unfold holders
  rw [Table.get?_erase]
  split <;> rfl

theorem holders_set (index : Index) (id : ItemId) (queries : List QueryId) (k : ItemId) :
    (index.set id queries).holders k = if id = k then queries else index.holders k := by
  unfold set
  split
  · next h => rw [holders_erase, List.isEmpty_iff.1 h]
  · rw [holders_insert]

theorem mem_holders_add {index : Index} {id : ItemId} {query : QueryId} {k : ItemId}
    {q : QueryId} :
    q ∈ (index.add id query).holders k ↔ (id = k ∧ q = query) ∨ q ∈ index.holders k := by
  unfold add
  split
  · next h =>
    refine ⟨.inr, ?_⟩
    rintro (⟨rfl, rfl⟩ | hq)
    · exact h
    · exact hq
  · rw [holders_insert]
    split
    · next h => subst h; simp [or_comm]
    · next h => simp [h]

end Index

/-- Entities, queries and memberships of one service. -/
structure Service where
  entities : Table ItemId Json := ∅
  queries : Table QueryId Query := ∅
  index : Index := ∅

namespace Service

def idsOf (conv : Conventions) (items : List Json) : List ItemId := items.filterMap conv.idOf

def showsId (conv : Conventions) (id : ItemId) (state : QueryState) : Bool :=
  state.shown.any fun item => conv.idOf item == some id

/-- Does the result of any query, whether it merges events or not, show this id? -/
def shownByAny (conv : Conventions) (queries : Table QueryId Query) (id : ItemId) : Bool :=
  queries.entries.any fun entry => showsId conv id entry.2.state

/-- End one membership. The entity goes with the last one, unless it is still shown. -/
def unindex (conv : Conventions) (query : QueryId) (s : Service) (id : ItemId) : Service :=
  let holders := s.index.holders id
  if query ∉ holders then s
  else
    let rest := holders.filter (· ≠ query)
    { s with
      index := s.index.set id rest
      entities :=
        if rest.isEmpty && !shownByAny conv s.queries id then s.entities.erase id else s.entities }

end Service

end LiveQuery
