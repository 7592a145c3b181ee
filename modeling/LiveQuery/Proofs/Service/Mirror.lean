import LiveQuery.Proofs.Service.Effects

/-!
# The index mirrors the results

The membership index and the results of the queries are changed by separate pieces of
code. `Service.Mirror` says that they agree: under an id stand exactly the merging
queries whose result shows it. It is kept by all that can happen on a service: a new
query, the beginning of a fetch, its answer, a change that is merged, and the end of a
query.

Where index and results agree, what a change does to a query can be read off its result
alone (`shown_merge_of_not_wants`, `shown_merge_of_shows`, `shown_merge_of_joins`).
-/

namespace LiveQuery

namespace Query

variable {conv : Conventions} {q : Query} {id k : ItemId} {item : Json}
variable {change : Change} {held : Bool}

/-- Does membership under an id say whether the query merges events and shows the id? -/
def Mirrors (conv : Conventions) (q : Query) (id : ItemId) (held : Bool) : Prop :=
  held = true ↔ q.merges = true ∧ q.Shows conv id

/-- The query after a change of the item with the given id. -/
abbrev merged (conv : Conventions) (q : Query) (id : ItemId) (held : Bool)
    (change : Change) : Query :=
  q.merge conv id change.item (q.effect held change)

/-! ## One change, seen through the result -/

section Mirrored

variable (fits : q.Fits) (mirrors : q.Mirrors conv id held)

omit fits mirrors in
theorem effect_eq_unaffected (h : q.merges = false) : q.effect held change = .unaffected := by
  cases he : q.effect held change with
  | leaves => simp [effect_eq_leaves, h] at he
  | stays => simp [effect_eq_stays, h] at he
  | joins => simp [effect_eq_joins, h] at he
  | unaffected => rfl

include mirrors in
theorem effect_of_not_shows (shown : ¬q.Shows conv id) :
    q.effect held change = .joins ∨ q.effect held change = .unaffected := by
  cases he : q.effect held change with
  | leaves => exact absurd (mirrors.mp (effect_eq_leaves.mp he).2.1).2 shown
  | stays => exact absurd (mirrors.mp (effect_eq_stays.mp he).2.1).2 shown
  | joins => exact Or.inl rfl
  | unaffected => exact Or.inr rfl

include mirrors in
theorem merge_of_not_wants (shown : ¬q.Shows conv id) (wants : q.wants change = false) :
    q.merged conv id held change = q := by
  rcases effect_of_not_shows mirrors shown with he | he
  · have hwants := (effect_eq_joins.mp he).2.2.1
    rw [wants] at hwants
    cases hwants
  · rw [merged, he]
    rfl

include fits mirrors in
theorem shown_merge_of_not_wants (merges : q.merges = true)
    (wants : q.wants change = false) :
    (q.merged conv id held change).state.shown =
      q.state.shown.filter fun old => conv.idOf old != some id := by
  by_cases shown : q.Shows conv id
  · rw [merged, effect_eq_leaves.mpr ⟨merges, mirrors.mpr ⟨merges, shown⟩, wants⟩]
    exact shown_drop fits shown
  · rw [merge_of_not_wants mirrors shown wants]
    refine (List.filter_eq_self.mpr fun old hmem => ?_).symm
    exact bne_iff_ne.mpr fun hid => shown (shows_iff.mpr ⟨old, hmem, hid⟩)

include fits mirrors in
theorem shown_merge_of_shows (merges : q.merges = true) (wants : q.wants change = true)
    (shown : q.Shows conv id) :
    (q.merged conv id held change).state.shown =
      q.state.shown.map fun old =>
        if conv.idOf old == some id then change.item else old := by
  rw [merged, effect_eq_stays.mpr ⟨merges, mirrors.mpr ⟨merges, shown⟩, wants⟩]
  exact shown_replace fits shown

include fits mirrors in
theorem shown_merge_of_joins (merges : q.merges = true) (wants : q.wants change = true)
    (shown : ¬q.Shows conv id) (find : q.descriptor.method = .find)
    (fetched : q.state.data.isSome = true) :
    (q.merged conv id held change).state.shown = q.state.shown ++ [change.item] := by
  have hheld : held = false :=
    Bool.eq_false_iff.mpr fun h => shown (mirrors.mp h).2
  rw [merged, effect_eq_joins.mpr ⟨merges, hheld, wants, find, fetched⟩]
  exact shown_append fits find fetched

include mirrors in
theorem merge_of_not_joins (shown : ¬q.Shows conv id)
    (h : ¬(q.descriptor.method = .find ∧ q.state.data.isSome = true)) :
    q.merged conv id held change = q := by
  rcases effect_of_not_shows mirrors shown with he | he
  · exact absurd (effect_eq_joins.mp he).2.2.2 h
  · rw [merged, he]
    rfl

include mirrors in
theorem merged_of_none (unfetched : q.state.data = none) : q.merged conv id held change = q := by
  refine merge_of_not_joins mirrors (not_shows_of_none unfetched) ?_
  rintro ⟨-, hfetched⟩
  rw [unfetched] at hfetched
  cases hfetched

include fits mirrors in
/-- Of what a query shows after a change, only the new item has its id, if the query wants it. -/
theorem only_merged (merges : q.merges = true) (wants : q.wants change = true) :
    ∀ old ∈ (q.merged conv id held change).state.shown, conv.idOf old = some id →
      old = change.item := by
  intro old hold hid
  by_cases shown : q.Shows conv id
  · rw [shown_merge_of_shows fits mirrors merges wants shown] at hold
    obtain ⟨former, -, rfl⟩ := List.mem_map.mp hold
    split at hid
    · next hformer => rw [if_pos hformer]
    · next hformer => exact absurd (beq_iff_eq.mpr hid) hformer
  · by_cases hplace : q.descriptor.method = .find ∧ q.state.data.isSome = true
    · rw [shown_merge_of_joins fits mirrors merges wants shown hplace.1 hplace.2] at hold
      rcases List.mem_append.mp hold with hold | hold
      · exact absurd (shows_iff.mpr ⟨old, hold, hid⟩) shown
      · exact List.mem_singleton.mp hold
    · rw [merge_of_not_joins mirrors shown hplace] at hold
      exact absurd (shows_iff.mpr ⟨old, hold, hid⟩) shown

/-! ## Which ids are shown after a change -/

include fits mirrors in
theorem shows_merged_of_ne (hid : conv.idOf change.item = some id) (hne : k ≠ id) :
    (q.merged conv id held change).Shows conv k ↔ q.Shows conv k := by
  cases merges : q.merges with
  | false => rw [merged, effect_eq_unaffected merges]; rfl
  | true =>
    cases wants : q.wants change with
    | false =>
      rw [Shows, shown_merge_of_not_wants fits mirrors merges wants,
        Service.mem_idsOf_filter]
      exact and_iff_left hne
    | true =>
      by_cases shown : q.Shows conv id
      · rw [Shows, shown_merge_of_shows fits mirrors merges wants shown,
          Service.idsOf_map_replace hid]
        rfl
      · by_cases h : q.descriptor.method = .find ∧ q.state.data.isSome = true
        · rw [Shows, shown_merge_of_joins fits mirrors merges wants shown h.1 h.2,
            Service.idsOf_append_singleton hid, List.mem_append, List.mem_singleton]
          exact or_iff_left hne
        · rw [merge_of_not_joins mirrors shown h]

include fits mirrors in
theorem shows_merged_self (hid : conv.idOf change.item = some id)
    (merges : q.merges = true) :
    (q.merged conv id held change).Shows conv id ↔
      q.wants change = true ∧ (q.Shows conv id ∨
        q.descriptor.method = .find ∧ q.state.data.isSome = true) := by
  cases wants : q.wants change with
  | false =>
    rw [Shows, shown_merge_of_not_wants fits mirrors merges wants,
      Service.mem_idsOf_filter]
    simp
  | true =>
    by_cases shown : q.Shows conv id
    · rw [Shows, shown_merge_of_shows fits mirrors merges wants shown,
        Service.idsOf_map_replace hid]
      exact iff_of_true shown ⟨rfl, Or.inl shown⟩
    · by_cases h : q.descriptor.method = .find ∧ q.state.data.isSome = true
      · rw [Shows, shown_merge_of_joins fits mirrors merges wants shown h.1 h.2,
          Service.idsOf_append_singleton hid]
        exact iff_of_true (List.mem_append_right _ List.mem_cons_self) ⟨rfl, Or.inr h⟩
      · rw [merge_of_not_joins mirrors shown h]
        exact iff_of_false shown fun hs => hs.2.elim shown h

include fits mirrors in
theorem Fits.merged : (q.merged conv id held change).Fits := by
  intro data hdata
  rw [descriptor_merge]
  cases he : q.effect held change with
  | leaves =>
    have fetched := data_isSome_of_shows (mirrors.mp (effect_eq_leaves.mp he).2.1).2
    cases hm : q.descriptor.method with
    | get => simp [Query.merged, he, Query.merge, Query.drop, hm, withData] at hdata
    | find =>
      have hd := fits.eq_list hm fetched
      simp only [Query.merged, he, Query.merge, Query.drop, hm, mapList, hd, withMetadata] at hdata
      obtain rfl := Option.some.inj hdata
      rfl
  | stays =>
    have fetched := data_isSome_of_shows (mirrors.mp (effect_eq_stays.mp he).2.1).2
    cases hm : q.descriptor.method with
    | get =>
      simp only [Query.merged, he, Query.merge, Query.replace, hm, withData] at hdata
      obtain rfl := Option.some.inj hdata
      rfl
    | find =>
      have hd := fits.eq_list hm fetched
      simp only [Query.merged, he, Query.merge, Query.replace, hm, mapList, hd] at hdata
      obtain rfl := Option.some.inj hdata
      rfl
  | joins =>
    obtain ⟨-, -, -, find, fetched⟩ := effect_eq_joins.mp he
    have hd := fits.eq_list find fetched
    simp only [Query.merged, he, Query.merge, Query.append, hd, withData, withMetadata] at hdata
    obtain rfl := Option.some.inj hdata
    exact find
  | unaffected =>
    rw [Query.merged, he] at hdata
    exact fits data hdata

include fits mirrors in
/-- After a change the members under its id are those that were members and did not lose
the item, and those that the item joined; they are again the queries that show it. -/
theorem mirrors_merged (hid : conv.idOf change.item = some id) :
    (held = true ∧ q.effect held change ≠ .leaves ∨ q.effect held change = .joins) ↔
      q.merges = true ∧ (q.merged conv id held change).Shows conv id := by
  cases merges : q.merges with
  | false =>
    rw [effect_eq_unaffected merges]
    simp only [Bool.false_eq_true, false_and, iff_false, reduceCtorEq, or_false, not_and]
    intro hheld
    simp [(mirrors.mp hheld).1] at merges
  | true =>
    rw [shows_merged_self fits mirrors hid merges, Ne, effect_eq_leaves, effect_eq_joins,
      merges]
    have hheld : held = true ↔ q.Shows conv id := by
      exact mirrors.trans (and_iff_right merges)
    rw [← hheld]
    cases held <;> cases q.wants change <;> simp

end Mirrored

/-- Is the query a list that has been fetched and follows events item by item? -/
structure Follows (q : Query) : Prop where
  merges : q.merges = true
  find : q.descriptor.method = .find
  fetched : q.state.data.isSome = true

theorem Follows.merged (h : q.Follows) (fits : q.Fits) :
    (q.merged conv id held change).Follows where
  merges := by rw [merges_merge, h.merges]
  find := by rw [descriptor_merge, h.find]
  fetched := by
    have hd := fits.eq_list h.find h.fetched
    unfold Query.merged
    cases q.effect held change <;>
      simp [merge, drop, replace, append, h.find, mapList, withData, withMetadata, hd]

end Query

namespace Service

/-- Index, entities and results of a service agree. -/
structure Mirror (conv : Conventions) (s : Service) : Prop where
  /-- Under an id stand exactly the merging queries that show it. -/
  mem_holders : ∀ {id : ItemId} {query : QueryId}, query ∈ s.index.holders id ↔
    ∃ q, s.queries.get? query = some q ∧ q.merges = true ∧ q.Shows conv id
  tidy : s.index.Tidy
  /-- An id with holders is cached. -/
  cached : ∀ {id : ItemId}, s.index.holders id ≠ [] → ∃ item, s.entities.get? id = some item
  fits : ∀ {query : QueryId} {q : Query}, s.queries.get? query = some q → q.Fits

namespace Mirror

variable {conv : Conventions} {s : Service} {id k : ItemId} {query x : QueryId} {q : Query}

theorem empty : Mirror conv {} where
  mem_holders := by
    intro id query
    exact iff_of_false List.not_mem_nil fun ⟨_, hq, _⟩ => by cases hq
  tidy := fun _ _ h => by cases h
  cached := fun h => absurd rfl h
  fits := fun h => by cases h

theorem mirrors (h : s.Mirror conv) (id : ItemId) (hq : s.queries.get? query = some q) :
    q.Mirrors conv id (decide (query ∈ s.index.holders id)) := by
  rw [Query.Mirrors, decide_eq_true_eq, h.mem_holders]
  constructor
  · rintro ⟨p, hp, hm⟩
    obtain rfl := Option.some.inj (hq.symm.trans hp)
    exact hm
  · exact fun hm => ⟨q, hq, hm⟩

theorem adopt (h : s.Mirror conv) (new : s.queries.get? query = none)
    (data : q.state.data = none) :
    Mirror conv { s with queries := s.queries.insert query q } where
  mem_holders := by
    intro id x
    rw [h.mem_holders, Table.get?_insert]
    split
    · next e =>
      subst e
      constructor
      · rintro ⟨p, hp, -⟩
        rw [new] at hp
        cases hp
      · rintro ⟨p, hp, -, hs⟩
        obtain rfl := Option.some.inj hp
        have := Query.data_isSome_of_shows hs
        rw [data] at this
        cases this
    · rfl
  tidy := h.tidy
  cached := h.cached
  fits := by
    intro x p hp
    rw [Table.get?_insert] at hp
    split at hp
    · obtain rfl := Option.some.inj hp
      intro d hd
      rw [data] at hd
      cases hd
    · exact h.fits hp

theorem modify (h : s.Mirror conv) {f : Query → Query}
    (data : ∀ q, (f q).state.data = q.state.data)
    (descriptor : ∀ q, (f q).descriptor = q.descriptor)
    (config : ∀ q, (f q).config = q.config) :
    Mirror conv { s with queries := s.queries.modify query f } where
  mem_holders := by
    intro id x
    rw [h.mem_holders, Table.get?_modify]
    split
    · cases s.queries.get? x with
      | none => rfl
      | some q =>
        simp [Query.merges, Query.Shows, QueryState.shown, data, descriptor, config]
    · rfl
  tidy := h.tidy
  cached := h.cached
  fits := by
    intro x p hp
    rw [Table.get?_modify] at hp
    split at hp
    · obtain ⟨q, hq, rfl⟩ := Option.map_eq_some_iff.mp hp
      intro d hd
      rw [data] at hd
      rw [descriptor]
      exact h.fits hq d hd
    · exact h.fits hp

theorem fetching (h : s.Mirror conv) (query : QueryId) : Mirror conv (s.fetching query) :=
  h.modify (fun _ => rfl) (fun _ => rfl) (fun _ => rfl)

/-! ### Answers and the end of a query

All three replace one query, or take it away, and give it its memberships anew. -/

theorem replaced {s' : Service} (h : s.Mirror conv) (query : QueryId) (o : Option Query)
    (queries : ∀ x, s'.queries.get? x = if x = query then o else s.queries.get? x)
    (others : ∀ {k x}, x ≠ query → (x ∈ s'.index.holders k ↔ x ∈ s.index.holders k))
    (own : ∀ {k}, query ∈ s'.index.holders k ↔
      ∃ q, o = some q ∧ q.merges = true ∧ q.Shows conv k)
    (tidy : s'.index.Tidy)
    (cached : ∀ {id}, s'.index.holders id ≠ [] → ∃ item, s'.entities.get? id = some item)
    (fits : ∀ {q}, o = some q → q.Fits) : s'.Mirror conv where
  mem_holders := by
    intro k x
    rw [queries]
    split
    · next e => rw [e, own]
    · next hne => rw [others hne, h.mem_holders]
  tidy := tidy
  cached := cached
  fits := by
    intro x q hq
    rw [queries] at hq
    split at hq
    · exact fits hq
    · exact h.fits hq

theorem mem_indexedIds (h : s.Mirror conv) (hq : s.queries.get? query = some q) :
    query ∈ s.index.holders k ↔ k ∈ indexedIds conv q := by
  have hm := h.mirrors k hq
  rw [Query.Mirrors, decide_eq_true_eq] at hm
  rw [hm, indexedIds]
  cases q.merges <;> simp [Query.Shows]

theorem cached_foldl_unindex {ids : List ItemId} {entities : Table ItemId Json}
    {queries : Table QueryId Query} (h : s.Mirror conv)
    (kept : ∀ {id}, (∃ item, s.entities.get? id = some item) →
      ∃ item, entities.get? id = some item)
    (held : (ids.foldl (unindex conv query)
      { s with entities := entities, queries := queries }).index.holders id ≠ []) :
    ∃ item, (ids.foldl (unindex conv query)
      { s with entities := entities, queries := queries }).entities.get? id = some item := by
  rw [entities_foldl_unindex _ _ (Or.inr held)]
  refine kept (h.cached fun hnil => held ?_)
  refine List.eq_nil_iff_forall_not_mem.mpr ?_
  intro y hy
  have hy : y ∈ s.index.holders id := ((mem_holders_foldl_unindex ids _).mp hy).1
  rw [hnil] at hy
  exact absurd hy List.not_mem_nil

theorem fetchFailed (h : s.Mirror conv) (query : QueryId) (failure : Failure) :
    Mirror conv (s.fetchFailed conv query failure) := by
  cases hq : s.queries.get? query with
  | none => rwa [Service.fetchFailed, hq]
  | some q =>
    have queries : ∀ x, (s.land conv query (.error failure)).queries.get? x = _ :=
      get?_queries_land (.error failure)
    simp only [land, Service.fetchFailed, hq] at queries ⊢
    refine h.replaced query (some (q.failed failure))
      (fun x => ?_) ?_ ?_ (tidy_foldl_unindex _ h.tidy) ?_ ?_
    · rw [queries]
      split
      · next e => rw [e, hq]; rfl
      · rfl
    · intro k x hne
      rw [mem_holders_foldl_unindex]
      exact and_iff_left fun hc => hne hc.1
    · intro k
      rw [mem_holders_foldl_unindex]
      refine iff_of_false ?_ ?_
      · rintro ⟨hk, hnot⟩
        exact hnot ⟨rfl, (h.mem_indexedIds hq).mp hk⟩
      · rintro ⟨p, hp, -, hs⟩
        obtain rfl := Option.some.inj hp
        cases Query.data_isSome_of_shows hs
    · exact fun held => h.cached_foldl_unindex id held
    · intro p hp data hdata
      obtain rfl := Option.some.inj hp
      cases hdata

theorem vacuum {s' : Service} (h : s.Mirror conv) (hv : s.vacuum? conv query = some s') :
    s'.Mirror conv := by
  obtain ⟨q, hq, rfl⟩ := vacuum?_eq_some.mp hv
  refine h.replaced query none (fun x => ?_) ?_ ?_
    (tidy_foldl_unindex _ h.tidy) ?_ (fun hp => by cases hp)
  · rw [get?_queries_vacuum hv]
    exact if_congr eq_comm rfl rfl
  · intro k x hne
    rw [mem_holders_foldl_unindex]
    exact and_iff_left fun hc => hne hc.1
  · intro k
    rw [mem_holders_foldl_unindex]
    refine iff_of_false ?_ fun ⟨p, hp, _⟩ => by cases hp
    rintro ⟨hk, hnot⟩
    have hk := (h.mem_indexedIds hq).mp hk
    rw [indexedIds] at hk
    split at hk
    · exact hnot ⟨rfl, hk⟩
    · cases hk
  · exact fun held => h.cached_foldl_unindex id held

theorem fetched (h : s.Mirror conv) {data : QueryData} {metadata : Fields}
    (suits : ∀ {q}, s.queries.get? query = some q → data.suits q.descriptor.method) :
    Mirror conv (s.fetched conv query data metadata) := by
  cases hq : s.queries.get? query with
  | none => rwa [Service.fetched, hq]
  | some q =>
    have queries : ∀ x, (s.fetched conv query data metadata).queries.get? x =
        if x = query then some (q.landed data metadata) else s.queries.get? x := by
      intro x
      rw [show s.fetched conv query data metadata = s.land conv query (.ok (data, metadata))
        from rfl, get?_queries_land]
      split
      · next e => rw [e, hq]; rfl
      · rfl
    have fits : ∀ {p}, some (q.landed data metadata) = some p → p.Fits := by
      intro p hp d hd
      obtain rfl := Option.some.inj hp
      obtain rfl := Option.some.inj hd
      exact suits (q := q) hq
    have kept : ∀ {id}, (∃ item, s.entities.get? id = some item) →
        ∃ item, (keepItems conv s.entities data.all).get? id = some item :=
      fun hid => get?_keepItems (Or.inr hid)
    have held := fun k => h.mem_indexedIds (k := k) hq
    cases merges : q.merges with
    | false =>
      simp only [Service.fetched, hq, merges, Bool.false_eq_true, if_false] at queries ⊢
      refine h.replaced _ _ queries (fun _ => Iff.rfl) ?_ h.tidy (fun hk => kept (h.cached hk)) fits
      intro k
      rw [held, indexedIds, merges]
      refine iff_of_false List.not_mem_nil ?_
      rintro ⟨p, hp, hm, -⟩
      obtain rfl := Option.some.inj hp
      exact absurd (merges.symm.trans hm) Bool.false_ne_true
    | true =>
      simp only [Service.fetched, hq, merges, if_true] at queries ⊢
      refine h.replaced _ _ queries ?_ ?_ (Index.Tidy.foldl_add (tidy_foldl_unindex _ h.tidy)) ?_
        fits
      · intro k x hne
        rw [Index.mem_holders_foldl_add, mem_holders_foldl_unindex]
        simp [hne]
      · intro k
        rw [Index.mem_holders_foldl_add, mem_holders_foldl_unindex, held]
        simp only [List.mem_filter, decide_not, true_and, Bool.not_eq_true', not_and,
          decide_eq_false_iff_not, not_not, Option.some.injEq, exists_eq_left']
        constructor
        · rintro (⟨hk, hc⟩ | hc)
          · exact ⟨merges, hc hk⟩
          · exact ⟨merges, hc⟩
        · rintro ⟨-, hc⟩
          exact Or.inr hc
      · intro id hid
        by_cases hc : id ∈ idsOf conv data.all
        · rw [entities_foldl_unindex _ _ (Or.inl fun hl => by simp [hc] at hl)]
          exact get?_keepItems (Or.inl hc)
        · refine h.cached_foldl_unindex kept fun hnil => hid ?_
          refine List.eq_nil_iff_forall_not_mem.mpr ?_
          intro y hy
          rcases Index.mem_holders_foldl_add.mp hy with hy | hy
          · exact absurd (hnil ▸ hy) List.not_mem_nil
          · exact hc hy.2

theorem land (h : s.Mirror conv) {answer : Except Failure (QueryData × Fields)}
    (suits : ∀ {q data metadata}, s.queries.get? query = some q →
      answer = .ok (data, metadata) → data.suits q.descriptor.method) :
    Mirror conv (s.land conv query answer) := by
  cases answer with
  | ok result => exact h.fetched fun hq => suits hq rfl
  | error failure => exact h.fetchFailed query failure

/-! ### Changes -/

/-- The members under the id of a change, after it, are the queries that show it. -/
theorem mem_holders_mergeChange_self (h : s.Mirror conv) {change : Change}
    (hid : conv.idOf change.item = some id) :
    x ∈ (s.mergeChange conv id change).index.holders id ↔
      ∃ q, (s.mergeChange conv id change).queries.get? x = some q ∧
        q.merges = true ∧ q.Shows conv id := by
  rw [holders_mergeChange, if_pos rfl, get?_queries_mergeChange, List.mem_append,
    List.mem_filter, decide_eq_true_eq, mem_affected, mem_affected]
  cases hx : s.queries.get? x with
  | none =>
    have hnot : x ∉ s.index.holders id := fun hm => by
      obtain ⟨q, hq, -⟩ := h.mem_holders.mp hm
      rw [hx] at hq
      cases hq
    simp [hnot]
  | some q =>
    have hm := Query.mirrors_merged (h.fits hx) (h.mirrors id hx) hid
    rw [decide_eq_true_eq] at hm
    simpa [effectOn] using hm

theorem mergeChange (h : s.Mirror conv) {change : Change}
    (hid : conv.idOf change.item = some id) :
    Mirror conv (s.mergeChange conv id change) where
  mem_holders := by
    intro k x
    by_cases hk : id = k
    · subst hk
      exact h.mem_holders_mergeChange_self hid
    · rw [holders_mergeChange, if_neg hk, h.mem_holders, get?_queries_mergeChange]
      cases hx : s.queries.get? x with
      | none => simp
      | some q =>
        have hs : (q.merged conv id _ change).Shows conv k ↔ q.Shows conv k :=
          Query.shows_merged_of_ne (h.fits hx) (h.mirrors id hx) hid (Ne.symm hk)
        simp only [Option.map_some, Option.some.injEq, exists_eq_left', Query.merges_merge]
        exact and_congr_right fun _ => hs.symm
  tidy := by
    refine h.tidy.set (List.nodup_append.mpr ⟨(h.tidy.nodup_holders id).filter _,
      nodup_affected, ?_⟩)
    rintro x hx y hy rfl
    obtain ⟨q, -, he⟩ := mem_affected.mp hy
    have held := (Query.effect_eq_joins.mp (List.mem_singleton.mp he)).2.1
    exact of_decide_eq_false held (List.mem_filter.mp hx).1
  cached := by
    intro k held
    rw [get?_entities_mergeChange]
    by_cases hk : id = k
    · subst hk
      rw [if_pos rfl, if_neg]
      · exact ⟨_, rfl⟩
      · obtain ⟨x, hx⟩ := List.exists_mem_of_ne_nil _ held
        rintro (hr | he)
        · obtain ⟨p, hp, hm, hs⟩ := (h.mem_holders_mergeChange_self hid).mp hx
          rw [get?_queries_mergeChange] at hp
          obtain ⟨q, hq, rfl⟩ := Option.map_eq_some_iff.mp hp
          rw [Query.merges_merge] at hm
          have := ((Query.shows_merged_self (h.fits hq) (h.mirrors _ hq) hid hm).mp hs).1
          simp [Query.wants, hr] at this
        · simp only [evicts, Bool.and_eq_true, List.isEmpty_iff] at he
          exact held he.1.2
    · rw [if_neg hk]
      refine h.cached ?_
      rwa [holders_mergeChange, if_neg hk] at held
  fits := by
    intro x p hp
    rw [get?_queries_mergeChange] at hp
    obtain ⟨q, hq, rfl⟩ := Option.map_eq_some_iff.mp hp
    exact (h.fits hq).merged (h.mirrors _ hq)

theorem mergeAll (h : s.Mirror conv) (changes : List Change) :
    Mirror conv (s.mergeAll conv changes).service :=
  mergeAll_induction h
    (fun _ _ _ ha h => h.mergeChange (admits?_eq_some.mp ha).1) changes

end Mirror

end Service

end LiveQuery
