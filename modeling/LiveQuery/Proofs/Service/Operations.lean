import LiveQuery.Service.Merging

/-!
# What the operations of a service do

One equation for each operation through each of the three views of a service: the
look-up of queries, the look-up of entities, and the holders of an id. Later proofs
cite these and do not unfold the operations.

The two loops of a service are packaged here once: ending many memberships
(`mem_holders_foldl_unindex`, `entities_foldl_unindex`) and merging a run of changes
(`mergeAll_induction`).
-/

namespace LiveQuery

/-! ## What a state shows -/

namespace Service

variable {conv : Conventions} {s : Service} {id k : ItemId} {query x : QueryId}

theorem mem_idsOf {items : List Json} :
    id ∈ idsOf conv items ↔ ∃ item ∈ items, conv.idOf item = some id := by
  simp [idsOf]

theorem mem_idsOf_filter {items : List Json} :
    k ∈ idsOf conv (items.filter fun old => conv.idOf old != some id) ↔
      k ∈ idsOf conv items ∧ k ≠ id := by
  simp only [mem_idsOf, List.mem_filter, bne_iff_ne, ne_eq]
  constructor
  · rintro ⟨old, ⟨hmem, hne⟩, hk⟩
    exact ⟨⟨old, hmem, hk⟩, fun e => hne (e ▸ hk)⟩
  · rintro ⟨⟨old, hmem, hk⟩, hne⟩
    exact ⟨old, ⟨hmem, fun e => hne (Option.some.inj (hk.symm.trans e))⟩, hk⟩

theorem idsOf_map_replace {items : List Json} {item : Json}
    (hid : conv.idOf item = some id) :
    idsOf conv (items.map fun old => if conv.idOf old == some id then item else old) =
      idsOf conv items := by
  rw [idsOf, idsOf, List.filterMap_map]
  congr 1
  funext old
  simp only [Function.comp_apply]
  split
  · next h => rw [hid, beq_iff_eq.mp h]
  · rfl

theorem idsOf_append_singleton {items : List Json} {item : Json}
    (hid : conv.idOf item = some id) :
    idsOf conv (items ++ [item]) = idsOf conv items ++ [id] := by
  simp [idsOf, hid]

/-! ## Ending memberships -/

@[simp] theorem queries_unindex :
    (unindex conv query s id).queries = s.queries := by
  unfold unindex
  dsimp only
  split <;> rfl

theorem holders_unindex :
    (unindex conv query s id).index.holders k =
      if id = k then (s.index.holders k).filter (· ≠ query)
      else s.index.holders k := by
  unfold unindex
  dsimp only
  split
  · next h =>
    split
    · next hk =>
      subst hk
      refine (List.filter_eq_self.mpr fun y hy => ?_).symm
      exact decide_eq_true fun e => h (e ▸ hy)
    · rfl
  · rw [Index.holders_set]
    split
    · next hk => rw [hk]
    · rfl

theorem entities_unindex
    (h : id ≠ k ∨ (unindex conv query s id).index.holders k ≠ []) :
    (unindex conv query s id).entities.get? k = s.entities.get? k := by
  rw [holders_unindex] at h
  unfold unindex
  dsimp only
  split
  · rfl
  · dsimp only
    split
    · next hgone =>
      rw [Table.get?_erase, if_neg]
      rintro rfl
      simp only [Bool.and_eq_true, List.isEmpty_iff] at hgone
      rw [if_pos rfl] at h
      rcases h with h | h
      · exact h rfl
      · exact h hgone.1
    · rfl

@[simp] theorem queries_foldl_unindex (ids : List ItemId) (s : Service) :
    (ids.foldl (unindex conv query) s).queries = s.queries := by
  induction ids generalizing s with
  | nil => rfl
  | cons id ids ih => rw [List.foldl_cons, ih, queries_unindex]

theorem mem_holders_foldl_unindex (ids : List ItemId) (s : Service) :
    x ∈ (ids.foldl (unindex conv query) s).index.holders k ↔
      x ∈ s.index.holders k ∧ ¬(x = query ∧ k ∈ ids) := by
  induction ids generalizing s with
  | nil => simp
  | cons id ids ih =>
    rw [List.foldl_cons, ih, holders_unindex]
    split
    · next h =>
      subst h
      simp only [List.mem_filter, decide_eq_true_eq, List.mem_cons, true_or, and_true]
      constructor
      · rintro ⟨⟨hx, hne⟩, -⟩
        exact ⟨hx, hne⟩
      · rintro ⟨hx, hne⟩
        exact ⟨⟨hx, hne⟩, fun h => hne h.1⟩
    · next h => simp [List.mem_cons, Ne.symm h]

theorem entities_foldl_unindex (ids : List ItemId) (s : Service)
    (h : k ∉ ids ∨ (ids.foldl (unindex conv query) s).index.holders k ≠ []) :
    (ids.foldl (unindex conv query) s).entities.get? k = s.entities.get? k := by
  induction ids generalizing s with
  | nil => rfl
  | cons id ids ih =>
    rw [List.foldl_cons] at h ⊢
    rw [ih _ (h.imp_left fun hk hmem => hk (List.mem_cons_of_mem _ hmem))]
    refine entities_unindex (h.imp (fun hk e => hk (e ▸ List.mem_cons_self)) ?_)
    refine mt fun hnil => List.eq_nil_iff_forall_not_mem.mpr fun y hy => ?_
    have hy := ((mem_holders_foldl_unindex ids _).mp hy).1
    rw [hnil] at hy
    exact absurd hy List.not_mem_nil

end Service

namespace Index

variable {index : Index} {ids : List ItemId} {k : ItemId} {query x : QueryId}

/-- No id is kept without holders, and no query stands twice under an id. -/
def Tidy (index : Index) : Prop :=
  ∀ id holders, index.get? id = some holders → holders ≠ [] ∧ holders.Nodup

theorem Tidy.nodup_holders (h : index.Tidy) (id : ItemId) : (index.holders id).Nodup := by
  unfold holders
  cases hid : index.get? id with
  | none => exact List.nodup_nil
  | some holders => exact (h id holders hid).2

theorem Tidy.contains_iff (h : index.Tidy) :
    index.contains k = true ↔ index.holders k ≠ [] := by
  rw [Table.contains_eq_true, holders]
  constructor
  · rintro ⟨holders, hk⟩
    rw [hk]
    exact (h k holders hk).1
  · intro hne
    cases hk : index.get? k with
    | none => rw [hk] at hne; exact absurd rfl hne
    | some holders => exact ⟨holders, rfl⟩

theorem Tidy.set {id : ItemId} {queries : List QueryId} (h : index.Tidy)
    (nodup : queries.Nodup) : (index.set id queries).Tidy := by
  intro k holders hk
  unfold Index.set at hk
  split at hk
  · rw [Table.get?_erase] at hk
    split at hk
    · cases hk
    · exact h k holders hk
  · next hne =>
    rw [Table.get?_insert] at hk
    split at hk
    · obtain rfl := Option.some.inj hk
      exact ⟨fun e => hne (List.isEmpty_iff.mpr e), nodup⟩
    · exact h k holders hk

theorem Tidy.add {id : ItemId} (h : index.Tidy) : (index.add id query).Tidy := by
  unfold Index.add
  split
  · exact h
  · next hnew =>
    intro k holders hk
    rw [Table.get?_insert] at hk
    split at hk
    · obtain rfl := Option.some.inj hk
      refine ⟨List.append_ne_nil_of_right_ne_nil _ (List.cons_ne_nil _ _), ?_⟩
      exact List.nodup_append.mpr ⟨h.nodup_holders id, by simp,
        fun a ha b hb e => hnew (by rwa [e, List.mem_singleton.mp hb] at ha)⟩
    · exact h k holders hk

theorem Tidy.foldl_add (h : index.Tidy) :
    (ids.foldl (fun index id => index.add id query) index).Tidy := by
  induction ids generalizing index with
  | nil => exact h
  | cons id ids ih => exact ih h.add

theorem mem_holders_foldl_add :
    x ∈ (ids.foldl (fun index id => index.add id query) index).holders k ↔
      x ∈ index.holders k ∨ (x = query ∧ k ∈ ids) := by
  induction ids generalizing index with
  | nil => simp
  | cons id ids ih =>
    rw [List.foldl_cons, ih, mem_holders_add]
    simp only [List.mem_cons]
    constructor
    · rintro ((⟨rfl, rfl⟩ | h) | ⟨rfl, h⟩)
      · exact Or.inr ⟨rfl, Or.inl rfl⟩
      · exact Or.inl h
      · exact Or.inr ⟨rfl, Or.inr h⟩
    · rintro (h | ⟨rfl, rfl | h⟩)
      · exact Or.inl (Or.inr h)
      · exact Or.inl (Or.inl ⟨rfl, rfl⟩)
      · exact Or.inr ⟨rfl, h⟩

end Index

namespace Service

variable {conv : Conventions} {s : Service} {id k : ItemId} {query x : QueryId}

theorem tidy_foldl_unindex (ids : List ItemId) (h : s.index.Tidy) :
    (ids.foldl (unindex conv query) s).index.Tidy := by
  induction ids generalizing s with
  | nil => exact h
  | cons id ids ih =>
    refine ih ?_
    unfold unindex
    dsimp only
    split
    · exact h
    · exact h.set ((h.nodup_holders id).filter _)

/-! ## Fetches -/

theorem keepItems_cons_of_none {item : Json} (h : conv.idOf item = none)
    (entities : Table ItemId Json) (items : List Json) :
    keepItems conv entities (item :: items) = keepItems conv entities items := by
  simp only [keepItems, List.foldl_cons, h]

theorem keepItems_cons_of_some {item : Json} (h : conv.idOf item = some id)
    (entities : Table ItemId Json) (items : List Json) :
    keepItems conv entities (item :: items) =
      keepItems conv (entities.insert id item) items := by
  simp only [keepItems, List.foldl_cons, h]

theorem get?_keepItems {items : List Json} {entities : Table ItemId Json}
    (h : k ∈ idsOf conv items ∨ ∃ item, entities.get? k = some item) :
    ∃ item, (keepItems conv entities items).get? k = some item := by
  induction items generalizing entities with
  | nil => exact h.resolve_left List.not_mem_nil
  | cons item items ih =>
    cases hid : conv.idOf item with
    | none =>
      rw [keepItems_cons_of_none hid]
      refine ih (h.imp_left ?_)
      intro hk
      rwa [idsOf, List.filterMap_cons_none hid] at hk
    | some id =>
      rw [keepItems_cons_of_some hid]
      rw [idsOf, List.filterMap_cons_some hid, List.mem_cons] at h
      by_cases hk : id = k
      · subst hk
        exact ih (Or.inr ⟨item, Table.get?_insert_self _ _ _⟩)
      · refine ih ?_
        rw [Table.get?_insert, if_neg hk]
        exact h.imp_left fun hc => hc.resolve_left (Ne.symm hk)

/-- The queries after an answer: only the one that was fetched has changed. -/
def land (conv : Conventions) (s : Service) (query : QueryId) :
    Except Failure (QueryData × Fields) → Service
  | .ok (data, metadata) => s.fetched conv query data metadata
  | .error failure => s.fetchFailed conv query failure

end Service

/-- The query once a fetch has been answered. -/
def Query.answered (q : Query) : Except Failure (QueryData × Fields) → Query
  | .ok (data, metadata) => q.landed data metadata
  | .error failure => q.failed failure

namespace Service

variable {conv : Conventions} {s : Service} {id k : ItemId} {query x : QueryId}

theorem get?_queries_fetching :
    (s.fetching query).queries.get? x =
      if x = query then (s.queries.get? x).map Query.begun else s.queries.get? x :=
  Table.get?_modify _ _ _ _

theorem get?_queries_land (answer : Except Failure (QueryData × Fields)) (x : QueryId) :
    (s.land conv query answer).queries.get? x =
      if x = query then (s.queries.get? x).map (·.answered answer)
      else s.queries.get? x := by
  cases answer with
  | ok result =>
    unfold land fetched
    dsimp only
    split
    · next h => split <;> simp_all
    · split <;> simp [Table.get?_modify, Query.answered]
  | error failure =>
    unfold land fetchFailed
    dsimp only
    split
    · next h => split <;> simp_all
    · simp [Table.get?_modify, Query.answered]

theorem vacuum?_eq_some {s' : Service} :
    s.vacuum? conv query = some s' ↔
      ∃ q, s.queries.get? query = some q ∧
        s' = (idsOf conv q.state.shown).foldl (unindex conv query)
          { s with queries := s.queries.erase query } := by
  unfold vacuum?
  rw [Option.map_eq_some_iff]
  exact exists_congr fun q => and_congr_right fun _ => eq_comm

theorem get?_queries_vacuum {s' : Service} (h : s.vacuum? conv query = some s') :
    s'.queries.get? x = if query = x then none else s.queries.get? x := by
  obtain ⟨q, -, rfl⟩ := vacuum?_eq_some.mp h
  rw [queries_foldl_unindex, Table.get?_erase]

/-! ## Merging -/

theorem mem_affected {change : Change} {effects : List Effect} :
    x ∈ s.affected id change effects ↔
      ∃ q, s.queries.get? x = some q ∧ s.effectOn id change x q ∈ effects := by
  simp [affected, Table.mem_entries]

theorem nodup_affected {change : Change} {effects : List Effect} :
    (s.affected id change effects).Nodup :=
  (List.filter_sublist.map Prod.fst).nodup s.queries.nodup

theorem queries_mergeChange {change : Change} :
    (s.mergeChange conv id change).queries =
      s.queries.map fun query q => q.merge conv id change.item (s.effectOn id change query q) :=
  rfl

theorem get?_queries_mergeChange {change : Change} :
    (s.mergeChange conv id change).queries.get? x =
      (s.queries.get? x).map fun q =>
        q.merge conv id change.item (s.effectOn id change x q) :=
  Table.get?_map _ _ _

theorem holders_mergeChange {change : Change} :
    (s.mergeChange conv id change).index.holders k =
      if id = k then
        (s.index.holders id).filter (· ∉ s.affected id change [.leaves]) ++
          s.affected id change [.joins]
      else s.index.holders k :=
  Index.holders_set _ _ _ _

/-- Has the change taken the id out of its last result? Its entity is then dropped. -/
def evicts (conv : Conventions) (s : Service) (id : ItemId) (change : Change) : Bool :=
  s.index.contains id && ((s.mergeChange conv id change).index.holders id).isEmpty &&
    !shownByAny conv (s.mergeChange conv id change).queries id

theorem entities_mergeChange {change : Change} :
    (s.mergeChange conv id change).entities =
      if s.evicts conv id change then
        (if change.kind = .removed then s.entities.erase id
          else s.entities.insert id change.item).erase id
      else if change.kind = .removed then s.entities.erase id
      else s.entities.insert id change.item := by
  rw [evicts, holders_mergeChange, if_pos rfl]
  rfl

theorem get?_entities_mergeChange {change : Change} :
    (s.mergeChange conv id change).entities.get? k =
      if id = k then
        if change.kind = .removed ∨ s.evicts conv id change = true then none
        else some change.item
      else s.entities.get? k := by
  rw [entities_mergeChange]
  by_cases hk : id = k
  · subst hk
    cases s.evicts conv id change with
    | true => simp
    | false => by_cases hr : change.kind = .removed <;> simp [hr]
  · cases s.evicts conv id change with
    | true =>
      by_cases hr : change.kind = .removed <;>
        simp [hr, hk, Table.get?_erase, Table.get?_insert]
    | false =>
      by_cases hr : change.kind = .removed <;>
        simp [hr, hk, Table.get?_erase, Table.get?_insert]

theorem admits?_eq_some {change : Change} :
    s.admits? conv change = some id ↔
      conv.idOf change.item = some id ∧ s.isLate conv id change = false := by
  unfold admits?
  cases conv.idOf change.item with
  | none => simp
  | some k =>
    dsimp only
    rw [Option.some.injEq]
    constructor
    · intro h
      split at h
      · cases h
      · next hl =>
        obtain rfl := Option.some.inj h
        exact ⟨rfl, Bool.eq_false_iff.mpr hl⟩
    · rintro ⟨rfl, hl⟩
      rw [if_neg (by rw [hl]; decide)]

theorem step_of_admits {m : Merged} {change : Change}
    (h : m.service.admits? conv change = some id) :
    (m.step conv change).service = m.service.mergeChange conv id change := by
  simp [Merged.step, h]

theorem step_of_rejects {m : Merged} {change : Change}
    (h : m.service.admits? conv change = none) : m.step conv change = m := by
  simp [Merged.step, h]

theorem service_foldl_step (changes : List Change) (m : Merged) :
    (changes.foldl (Merged.step conv) m).service =
      (m.service.mergeAll conv changes).service := by
  unfold mergeAll
  induction changes generalizing m with
  | nil => rfl
  | cons change changes ih =>
    rw [List.foldl_cons, List.foldl_cons, ih, ih (Merged.step conv _ change)]
    cases ha : m.service.admits? conv change with
    | none => rw [step_of_rejects ha, step_of_rejects (by exact ha)]
    | some id => rw [step_of_admits ha, step_of_admits (by exact ha)]

theorem mergeAll_cons (change : Change) (changes : List Change) :
    (s.mergeAll conv (change :: changes)).service =
      ((s.mergeAll conv [change]).service.mergeAll conv changes).service := by
  rw [mergeAll, List.foldl_cons, service_foldl_step]
  rfl

theorem mergeAll_append (first rest : List Change) :
    (s.mergeAll conv (first ++ rest)).service =
      ((s.mergeAll conv first).service.mergeAll conv rest).service := by
  rw [mergeAll, List.foldl_append, service_foldl_step]
  rfl

theorem mergeAll_singleton_of_admits {change : Change}
    (h : s.admits? conv change = some id) :
    (s.mergeAll conv [change]).service = s.mergeChange conv id change :=
  step_of_admits (m := { service := s }) h

theorem mergeAll_singleton_of_rejects {change : Change}
    (h : s.admits? conv change = none) : (s.mergeAll conv [change]).service = s :=
  congrArg Merged.service (step_of_rejects (m := { service := s }) h)

/-- What merging one admitted change keeps, merging a run of changes keeps. -/
theorem mergeAll_induction {P : Service → Prop} (init : P s)
    (step : ∀ s id change, s.admits? conv change = some id → P s →
      P (s.mergeChange conv id change)) (changes : List Change) :
    P (s.mergeAll conv changes).service := by
  induction changes generalizing s with
  | nil => exact init
  | cons change changes ih =>
    rw [mergeAll_cons]
    refine ih ?_
    cases ha : s.admits? conv change with
    | none => rwa [mergeAll_singleton_of_rejects ha]
    | some id =>
      rw [mergeAll_singleton_of_admits ha]
      exact step _ _ _ ha init

end Service

end LiveQuery
