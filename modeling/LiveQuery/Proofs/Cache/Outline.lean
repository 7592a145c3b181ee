import LiveQuery.Proofs.Cache.Acts

/-!
# Outlines

A query that is fetched again whenever something changes takes no part in the merging of changes:
no change has an effect on it, and where its fetches stand has no bearing on what a change does to
the rest of the service. The *outline* of a service leaves these fetches out of account. Merging
commutes with taking the outline (`Service.outline_mergeAll`), and to begin such a fetch or to put
it off leaves the outline alone (`Cache.Steps.outline_eq`).
-/

namespace LiveQuery

/-- A query without what events can do to its fetches. -/
def Query.outline (q : Query) : Query :=
  if q.config.realtime = .refetch then
    { q with
      pending := false
      dirty := false
      state := { q.state with status := .idle, isFetching := false, error := none } }
  else q

def Service.outline (s : Service) : Service :=
  { s with queries := s.queries.map fun _ q => q.outline }

/-- Are two queries the same, but for what events can do to their fetches? -/
structure Query.Matches (p q : Query) : Prop where
  life : p.life = q.life
  data : p.state.data = q.state.data
  metadata : p.state.metadata = q.state.metadata
  whole : p.config.realtime ≠ .refetch → p = q

/-- Do two services hold the same, but for what events can do to fetches? -/
structure Service.Matches (s t : Service) : Prop where
  entities : s.entities = t.entities
  index : s.index = t.index
  queries : ∀ query, Option.Rel Query.Matches (s.queries.get? query) (t.queries.get? query)

namespace Query

variable {conv : Conventions} {p q : Query} {id : ItemId} {held : Bool} {change : Change}

theorem outline_eq_self (h : q.config.realtime ≠ .refetch) : q.outline = q := if_neg h

theorem matches_outline (q : Query) : q.outline.Matches q := by
  by_cases h : q.config.realtime = .refetch
  · have hall : q.outline.life = q.life ∧ q.outline.state.data = q.state.data ∧
        q.outline.state.metadata = q.state.metadata ∧ q.outline.config = q.config := by
      rw [outline, if_pos h]
      exact ⟨rfl, rfl, rfl, rfl⟩
    obtain ⟨hlife, hdata, hmetadata, hconfig⟩ := hall
    exact ⟨hlife, hdata, hmetadata, fun hne => absurd (hconfig ▸ h) hne⟩
  · rw [outline_eq_self h]
    exact ⟨rfl, rfl, rfl, fun _ => rfl⟩

theorem data_outline : q.outline.state.data = q.state.data := q.matches_outline.data

theorem matches_of_outline (h : p.outline = q.outline) : p.Matches q := by
  have hp := p.matches_outline
  have hq := q.matches_outline
  rw [h] at hp
  have hlife : p.life = q.life := hp.life.symm.trans hq.life
  refine ⟨hlife, hp.data.symm.trans hq.data, hp.metadata.symm.trans hq.metadata, ?_⟩
  intro hfollows
  have hconfig : p.config = q.config := congrArg Life.config hlife
  rwa [outline_eq_self hfollows, outline_eq_self (hconfig ▸ hfollows)] at h

theorem not_merges_of_refetch (h : q.config.realtime = .refetch) : q.merges = false := by
  rw [merges, h]
  rfl

theorem effect_outline : q.outline.effect held change = q.effect held change := by
  unfold outline
  split <;> rfl

theorem outline_merged :
    (q.merged conv id held change).outline = q.outline.merged conv id held change := by
  by_cases h : q.config.realtime = .refetch
  · have hnone : q.effect held change = .unaffected :=
      effect_eq_unaffected (not_merges_of_refetch h)
    rw [merged, merged, effect_outline, hnone]
    rfl
  · have hmerged : (q.merged conv id held change).config.realtime ≠ .refetch := by
      rwa [merged, config_merge]
    rw [outline_eq_self h, outline_eq_self hmerged]

theorem outline_begun (h : q.config.realtime = .refetch) : q.begun.outline = q.outline := by
  have hbegun : q.begun.config.realtime = .refetch := h
  rw [outline, outline, if_pos h, if_pos hbegun]
  rfl

theorem outline_marked (h : q.config.realtime = .refetch) (dirty : Bool) :
    (marked dirty q).outline = q.outline := by
  have hmarked : (marked dirty q).config.realtime = .refetch := h
  rw [outline, outline, if_pos h, if_pos hmarked]
  rfl

end Query

namespace Service

variable {conv : Conventions} {s : Service} {id : ItemId} {change : Change} {query : QueryId}

theorem matches_of_outline {t : Service} (h : s.outline = t.outline) : s.Matches t where
  entities := (congrArg entities h :)
  index := (congrArg index h :)
  queries query := by
    have hsame : s.outline.queries.get? query = t.outline.queries.get? query := by rw [h]
    dsimp only [outline] at hsame
    rw [Table.get?_map, Table.get?_map] at hsame
    cases hp : s.queries.get? query with
    | none =>
      rw [hp, Option.map_none, eq_comm, Option.map_eq_none_iff] at hsame
      rw [hsame]
      exact .none
    | some p =>
      rw [hp, Option.map_some, eq_comm, Option.map_eq_some_iff] at hsame
      obtain ⟨q, hq, houtline⟩ := hsame
      rw [hq]
      exact .some (Query.matches_of_outline houtline.symm)

/-! ## Merging -/

theorem effectOn_outline (q : Query) :
    s.outline.effectOn id change query q.outline = s.effectOn id change query q :=
  Query.effect_outline

theorem affected_outline (effects : List Effect) :
    s.outline.affected id change effects = s.affected id change effects := by
  unfold affected
  show ((s.queries.entries.map _).filter _).map _ = _
  rw [List.filter_map, List.map_map]
  congr 1
  refine List.filter_congr fun e _ => ?_
  show decide (s.outline.effectOn id change e.1 e.2.outline ∈ effects) = _
  rw [effectOn_outline]

theorem shownByAny_outline (queries : Table QueryId Query) :
    shownByAny conv (queries.map fun _ q => q.outline) id = shownByAny conv queries id := by
  show (queries.entries.map _).any _ = _
  rw [List.any_map]
  refine List.any_congr rfl fun e => ?_
  show showsId conv id e.2.outline.state = showsId conv id e.2.state
  rw [showsId, showsId, QueryState.shown, QueryState.shown, Query.data_outline]

theorem queries_mergeChange_outline :
    (s.outline.mergeChange conv id change).queries =
      (s.mergeChange conv id change).queries.map fun _ q => q.outline := by
  have hqueries : s.outline.queries = s.queries.map fun _ q => q.outline := rfl
  rw [queries_mergeChange, queries_mergeChange, hqueries, Table.map_map, Table.map_map]
  exact Table.map_congr fun _ _ _ => Query.outline_merged.symm

theorem index_mergeChange_outline :
    (s.outline.mergeChange conv id change).index = (s.mergeChange conv id change).index := by
  show s.index.set id ((s.index.holders id).filter (· ∉ s.outline.affected id change [.leaves]) ++
    s.outline.affected id change [.joins]) = _
  rw [affected_outline, affected_outline]
  rfl

theorem evicts_outline : s.outline.evicts conv id change = s.evicts conv id change := by
  rw [evicts, evicts, index_mergeChange_outline, queries_mergeChange_outline, shownByAny_outline]
  rfl

/-- A change does the same to the outline of a service as to the service. -/
theorem outline_mergeChange :
    (s.mergeChange conv id change).outline = s.outline.mergeChange conv id change := by
  have hentities : (s.outline.mergeChange conv id change).entities =
      (s.mergeChange conv id change).entities := by
    rw [entities_mergeChange, entities_mergeChange, evicts_outline]
    rfl
  rw [outline, ← hentities, ← queries_mergeChange_outline, ← index_mergeChange_outline]

theorem outline_mergeAll (changes : List Change) :
    (s.mergeAll conv changes).service.outline = (s.outline.mergeAll conv changes).service := by
  induction changes generalizing s with
  | nil => rfl
  | cons change changes ih =>
    rw [mergeAll_cons, ih, mergeAll_cons (s := s.outline)]
    cases ha : s.admits? conv change with
    | none =>
      rw [mergeAll_singleton_of_rejects ha, mergeAll_singleton_of_rejects (s := s.outline) ha]
    | some id =>
      rw [mergeAll_singleton_of_admits ha, mergeAll_singleton_of_admits (s := s.outline) ha,
        outline_mergeChange]

/-! ## Fetches -/

theorem outline_modify {f : Query → Query}
    (h : ∀ q, s.queries.get? query = some q → (f q).outline = q.outline) :
    outline { s with queries := s.queries.modify query f } = s.outline := by
  rw [outline, outline, Table.modify, Table.map_map]
  congr 1
  refine Table.map_congr fun x q hq => ?_
  split
  · next hx =>
    subst hx
    exact h q hq
  · rfl

end Service

namespace Cache

variable {setup : Setup} {c c' : Cache} {query : QueryId} {move : Move} {name : String}

/-- The services without what events can do to fetches. -/
def outline (c : Cache) (name : String) : Service := (c.service name).outline

theorem outline_set {s : Service} (same : s.outline = c.outline name) :
    (c.set name s).outline = c.outline := by
  funext n
  show (Function.update c.service name s n).outline = (c.service n).outline
  by_cases hn : n = name
  · subst hn
    rw [Function.update_self]
    exact same
  · rw [Function.update_of_ne hn]

theorem Step.outline_eq (h : Step setup c move c')
    (fetch : move.Begins query ∨ move = .deferred query)
    (refetches : ∀ q, c.query? query = some q → q.config.realtime = .refetch) :
    c'.outline = c.outline ∧ c'.home? = c.home? ∧ c'.nextEpoch = c.nextEpoch := by
  have hof : ∀ {home q}, c.home? query = some home →
      (c.service home).queries.get? query = some q → q.config.realtime = .refetch := by
    intro home q hhome hq
    refine refetches q ?_
    rw [query?, hhome]
    exact hq
  cases h with
  | begun lives found =>
    obtain rfl : _ = query := fetch.resolve_right nofun
    refine ⟨outline_set (Service.outline_modify fun q hq => ?_), rfl, rfl⟩
    exact Query.outline_begun (hof lives hq)
  | deferred lives found =>
    obtain rfl := Move.deferred.inj (fetch.resolve_left id)
    refine ⟨outline_set (Service.outline_modify fun q hq => ?_), rfl, rfl⟩
    exact Query.outline_marked (hof lives hq) true
  | born | landed | dropped | merged | vacuumed =>
    rcases fetch with hbegins | hdeferred
    · exact hbegins.elim
    · cases hdeferred

theorem Steps.outline_eq {move? : Option Move} (h : Steps setup c move?.toList c')
    (fetch : ∀ move ∈ move?, move.Begins query ∨ move = .deferred query)
    (refetches : ∀ q, c.query? query = some q → q.config.realtime = .refetch) :
    c'.outline = c.outline ∧ c'.home? = c.home? ∧ c'.nextEpoch = c.nextEpoch := by
  cases move? with
  | none =>
    cases h
    exact ⟨rfl, rfl, rfl⟩
  | some move => exact h.step_of_singleton.outline_eq (fetch move rfl) refetches

end Cache

end LiveQuery
