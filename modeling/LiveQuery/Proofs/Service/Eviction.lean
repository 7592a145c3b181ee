import LiveQuery.Proofs.Service.Mirror
import Mathlib.Data.List.Induction

/-!
# Entities that are written and dropped

An operation of a service first writes entities, or removes one, and then drops what it has
released: the ids that have lost their last membership and that no query shows. The places
where the code does so are several, and the rule is one. `Service.Evolves` states it, and
each operation of a service keeps to it.

Two things follow from the rule. What a query shows is cached as it was last written, unless
the last write was a removal (`Service.Accounts`). And an entity is gone after a transition
exactly if the transition has removed or released it (`Evolves.evictsExactly`).
-/

namespace LiveQuery

variable {conv : Conventions}

/-! ## Writes -/

/-- What becomes of the entity of an id: an item is written, or the entity is removed. -/
structure Write where
  id : ItemId
  item? : Option Json

namespace Write

def apply (entities : Table ItemId Json) (write : Write) : Table ItemId Json :=
  match write.item? with
  | some item => entities.insert write.id item
  | none => entities.erase write.id

def latest? (writes : List Write) (id : ItemId) : Option Write :=
  writes.reverse.find? fun write => write.id == id

variable {entities : Table ItemId Json} {writes more : List Write} {write : Write} {id : ItemId}

theorem get?_apply :
    (apply entities write).get? id = if write.id = id then write.item? else entities.get? id := by
  unfold apply
  cases write.item? with
  | none => exact Table.get?_erase _ _ _
  | some item => exact Table.get?_insert _ _ _ _

theorem latest?_append :
    latest? (writes ++ more) id = (latest? more id).or (latest? writes id) := by
  rw [latest?, List.reverse_append, List.find?_append]
  rfl

theorem get?_foldl_apply :
    (writes.foldl apply entities).get? id =
      match latest? writes id with
      | some write => write.item?
      | none => entities.get? id := by
  induction writes using List.reverseRecOn with
  | nil => rfl
  | append_singleton writes write ih =>
    rw [List.foldl_append, List.foldl_cons, List.foldl_nil, get?_apply, ih, latest?_append]
    by_cases h : write.id = id
    · simp [latest?, h]
    · simp [latest?, h]

theorem mem_of_latest? (h : latest? writes id = some write) : write ∈ writes ∧ write.id = id :=
  ⟨List.mem_reverse.mp (List.mem_of_find?_eq_some h), by simpa using List.find?_some h⟩

theorem exists_latest? (h : write ∈ writes) :
    ∃ last, latest? writes write.id = some last := by
  refine Option.isSome_iff_exists.mp (List.find?_isSome.mpr ⟨write, ?_, by simp⟩)
  exact List.mem_reverse.mpr h

end Write

/-- What a change does to the entity of its id. -/
def Change.write (id : ItemId) (change : Change) : Write :=
  ⟨id, if change.kind = .removed then none else some change.item⟩

namespace Service

/-- The writes that keep the items of a result as entities. -/
def stored (conv : Conventions) (items : List Json) : List Write :=
  items.filterMap fun item => (conv.idOf item).map fun id => ⟨id, some item⟩

/-- The writes of an answer: those of its result, if the life that asked for it goes on. -/
def landing (conv : Conventions) (s : Service) (query : QueryId) (epoch : Nat) :
    Except Failure (QueryData × Fields) → List Write
  | .ok (data, _) =>
    if (s.queries.get? query).any (·.epoch == epoch) then stored conv data.all else []
  | .error _ => []

/-- The writes of a run of changes: one for each change that is not rejected. -/
def merging (conv : Conventions) (s : Service) : List Change → List Write
  | [] => []
  | change :: changes =>
    match s.admits? conv change with
    | some id => change.write id :: (s.mergeChange conv id change).merging conv changes
    | none => s.merging conv changes

/-- Does the result of some query, whether it merges events or not, show an id? -/
def IsShown (conv : Conventions) (s : Service) (id : ItemId) : Prop :=
  ∃ query q, s.queries.get? query = some q ∧ q.Shows conv id

/-- Has an id lost its last membership from one state of a service to another, while no query
shows it in the second? -/
structure Releases (conv : Conventions) (s s' : Service) (id : ItemId) : Prop where
  held : s.index.holders id ≠ []
  ended : s'.index.holders id = []
  unseen : ¬s'.IsShown conv id

/-- Has a service come by some writes from one state to another? Its entities are as they have
been written, except for those released, and what it shows was shown before or is written. -/
structure Evolves (conv : Conventions) (s : Service) (writes : List Write) (s' : Service) :
    Prop where
  dropped : ∀ {id}, s.Releases conv s' id → s'.entities.get? id = none
  kept : ∀ {id}, ¬s.Releases conv s' id →
    s'.entities.get? id = (writes.foldl Write.apply s.entities).get? id
  shown : ∀ {id}, s'.IsShown conv id → s.IsShown conv id ∨ ∃ write ∈ writes, write.id = id

/-- Of the entities that were there, or that a transition has written: are exactly those gone
that it has removed or released? -/
def EvictsExactly (conv : Conventions) (s : Service) (writes : List Write) (s' : Service) :
    Prop :=
  ∀ id, ((∃ item, s.entities.get? id = some item) ∨ ∃ write ∈ writes, write.id = id) →
    (s'.entities.get? id = none ↔
      (∃ write ∈ writes, write.id = id ∧ write.item? = none) ∨ s.Releases conv s' id)

/-- Are all queries but one as they were, with their memberships? -/
def AltersOnly (query : QueryId) (s s' : Service) : Prop :=
  ∀ x, x ≠ query → s'.queries.get? x = s.queries.get? x ∧
    ∀ id, x ∈ s'.index.holders id ↔ x ∈ s.index.holders id

/-- Is everything that a query shows cached as it was last written? -/
def Accounts (conv : Conventions) (s : Service) (writes : List Write) : Prop :=
  ∀ id, s.IsShown conv id →
    ∃ write, Write.latest? writes id = some write ∧ s.entities.get? id = write.item?

variable {s s' s'' : Service} {id k : ItemId} {query x : QueryId} {q : Query}
variable {writes more : List Write} {change : Change}

theorem mem_stored {items : List Json} {write : Write} (h : write ∈ stored conv items) :
    write.item?.isSome = true := by
  obtain ⟨item, -, hwrite⟩ := List.mem_filterMap.mp h
  obtain ⟨id, -, rfl⟩ := Option.map_eq_some_iff.mp hwrite
  rfl

theorem exists_stored {items : List Json} (h : id ∈ idsOf conv items) :
    ∃ write ∈ stored conv items, write.id = id := by
  obtain ⟨item, hitem, hid⟩ := mem_idsOf.mp h
  exact ⟨⟨id, some item⟩, List.mem_filterMap.mpr ⟨item, hitem, by rw [hid]; rfl⟩, rfl⟩

theorem isSome_of_mem_landing {epoch : Nat} {answer : Except Failure (QueryData × Fields)}
    {write : Write} (h : write ∈ landing conv s query epoch answer) :
    write.item?.isSome = true := by
  cases answer with
  | error failure => cases h
  | ok result =>
    rw [landing] at h
    split at h
    · exact mem_stored h
    · cases h

theorem exists_of_mem_merging {changes : List Change} {write : Write}
    (h : write ∈ s.merging conv changes) :
    ∃ change ∈ changes, conv.idOf change.item = some write.id ∧ write = change.write write.id := by
  induction changes generalizing s with
  | nil => cases h
  | cons change changes ih =>
    have hlater : ∀ {s : Service}, write ∈ s.merging conv changes → ∃ later ∈ change :: changes,
        conv.idOf later.item = some write.id ∧ write = later.write write.id := by
      intro s hs
      obtain ⟨later, hmem, hwrite⟩ := ih hs
      exact ⟨later, List.mem_cons_of_mem _ hmem, hwrite⟩
    rw [merging] at h
    split at h
    · next id ha =>
      rcases List.mem_cons.mp h with rfl | h
      · exact ⟨change, List.mem_cons_self, (admits?_eq_some.mp ha).1, rfl⟩
      · exact hlater h
    · exact hlater h

theorem keepItems_eq (entities : Table ItemId Json) (items : List Json) :
    keepItems conv entities items = (stored conv items).foldl Write.apply entities := by
  induction items generalizing entities with
  | nil => rfl
  | cons item items ih =>
    cases hid : conv.idOf item with
    | none =>
      rw [keepItems_cons_of_none hid, ih, stored, stored,
        List.filterMap_cons_none (by rw [hid]; rfl)]
    | some id =>
      rw [keepItems_cons_of_some hid, ih, stored, stored,
        List.filterMap_cons_some (by rw [hid]; rfl), List.foldl_cons]
      rfl

theorem shownByAny_eq_true : shownByAny conv s.queries id = true ↔ s.IsShown conv id := by
  simp only [shownByAny, List.any_eq_true, Prod.exists, Table.mem_entries, showsId, IsShown,
    Query.shows_iff, beq_iff_eq]

theorem isShown_of_eq (h : s'.queries = s.queries) : s'.IsShown conv id ↔ s.IsShown conv id := by
  rw [IsShown, h]
  rfl

theorem not_releases_of_holders (h : s'.index.holders id = s.index.holders id) :
    ¬s.Releases conv s' id :=
  fun release => release.held (h ▸ release.ended)

/-! ## Ending memberships -/

theorem get?_entities_unindex :
    (unindex conv query s id).entities.get? k =
      if s.index.holders k ≠ [] ∧ (unindex conv query s id).index.holders k = [] ∧
          shownByAny conv s.queries k = false then none
      else s.entities.get? k := by
  rw [holders_unindex]
  unfold unindex
  dsimp only
  split
  · next hnot =>
    have hsame : (if id = k then (s.index.holders k).filter (· ≠ query)
        else s.index.holders k) = s.index.holders k := by
      split
      · next hk =>
        subst hk
        exact List.filter_eq_self.mpr fun y hy => decide_eq_true fun e => hnot (e ▸ hy)
      · rfl
    rw [hsame, if_neg fun h => h.1 h.2.1]
  · next hmem =>
    rw [Decidable.not_not] at hmem
    dsimp only
    by_cases hk : id = k
    · subst hk
      have hheld : s.index.holders id ≠ [] := List.ne_nil_of_mem hmem
      rw [if_pos rfl]
      generalize (s.index.holders id).filter (· ≠ query) = rest
      cases rest with
      | nil => cases shownByAny conv s.queries id <;> simp [hheld]
      | cons y rest => simp
    · have hkept : ¬(s.index.holders k ≠ [] ∧ s.index.holders k = [] ∧
          shownByAny conv s.queries k = false) := fun h => h.1 h.2.1
      rw [if_neg hk, if_neg hkept]
      split
      · rw [Table.get?_erase, if_neg hk]
      · rfl

/-- However many memberships of a query end, an entity goes exactly if its last one does and
the id is not shown. -/
theorem get?_entities_foldl_unindex (ids : List ItemId) (s : Service) :
    (ids.foldl (unindex conv query) s).entities.get? k =
      if s.index.holders k ≠ [] ∧ (ids.foldl (unindex conv query) s).index.holders k = [] ∧
          shownByAny conv s.queries k = false then none
      else s.entities.get? k := by
  induction ids generalizing s with
  | nil => rw [List.foldl_nil, if_neg fun h => h.1 h.2.1]
  | cons id ids ih =>
    rw [List.foldl_cons, ih, get?_entities_unindex, queries_unindex]
    have hstays : (unindex conv query s id).index.holders k = [] →
        (ids.foldl (unindex conv query) (unindex conv query s id)).index.holders k = [] := by
      intro hnil
      refine List.eq_nil_iff_forall_not_mem.mpr fun y hy => ?_
      rw [mem_holders_foldl_unindex, hnil] at hy
      exact List.not_mem_nil hy.1
    have hlater : s.index.holders k = [] → (unindex conv query s id).index.holders k = [] := by
      intro hnil
      rw [holders_unindex, hnil]
      split <;> rfl
    grind

/-! ## Evolving -/

theorem evolves_of_shown (entities : s'.entities = s.entities) (index : s'.index = s.index)
    (shown : ∀ id, s'.IsShown conv id → s.IsShown conv id) : s.Evolves conv [] s' where
  dropped := fun h => absurd h (not_releases_of_holders (by rw [index]))
  kept := fun _ => by rw [entities]; rfl
  shown := fun h => Or.inl (shown _ h)

theorem evolves_refl : s.Evolves conv [] s := evolves_of_shown rfl rfl fun _ => id

theorem Evolves.congr (h : s.Evolves conv writes s') (entities : s''.entities = s'.entities)
    (shown : ∀ id, s''.IsShown conv id ↔ s'.IsShown conv id)
    (index : ∀ id x, ¬s'.IsShown conv id →
      (x ∈ s''.index.holders id ↔ x ∈ s'.index.holders id)) :
    s.Evolves conv writes s'' := by
  have hended : ∀ {id}, ¬s'.IsShown conv id →
      (s''.index.holders id = [] ↔ s'.index.holders id = []) := by
    intro id hunseen
    rw [List.eq_nil_iff_forall_not_mem, List.eq_nil_iff_forall_not_mem]
    exact forall_congr' fun x => not_congr (index id x hunseen)
  have hreleases : ∀ {id}, s.Releases conv s'' id ↔ s.Releases conv s' id := by
    intro id
    constructor
    · rintro ⟨held, ended, unseen⟩
      rw [shown] at unseen
      exact ⟨held, (hended unseen).mp ended, unseen⟩
    · rintro ⟨held, ended, unseen⟩
      exact ⟨held, (hended unseen).mpr ended, fun hs => unseen ((shown id).mp hs)⟩
  refine ⟨?_, ?_, ?_⟩
  · intro id hr
    rw [entities]
    exact h.dropped (hreleases.mp hr)
  · intro id hr
    rw [entities]
    exact h.kept (mt hreleases.mpr hr)
  · exact fun hs => h.shown ((shown _).mp hs)

theorem evolves_foldl_unindex {base : Service} (ids : List ItemId)
    (entities : base.entities = writes.foldl Write.apply s.entities)
    (index : base.index = s.index)
    (shown : ∀ id, base.IsShown conv id → s.IsShown conv id ∨ ∃ write ∈ writes, write.id = id) :
    s.Evolves conv writes (ids.foldl (unindex conv query) base) := by
  have hshown : ∀ {id}, (ids.foldl (unindex conv query) base).IsShown conv id ↔
      base.IsShown conv id := isShown_of_eq (queries_foldl_unindex ids base)
  have hunseen : ∀ {id}, shownByAny conv base.queries id = false ↔ ¬base.IsShown conv id := by
    intro id
    rw [← shownByAny_eq_true, Bool.not_eq_true]
  refine ⟨?_, ?_, ?_⟩
  · intro id hr
    rw [get?_entities_foldl_unindex, if_pos]
    exact ⟨index ▸ hr.held, hr.ended, hunseen.mpr fun hs => hr.unseen (hshown.mpr hs)⟩
  · intro id hr
    rw [get?_entities_foldl_unindex, if_neg, entities]
    rintro ⟨held, ended, unseen⟩
    exact hr ⟨index ▸ held, ended, fun hs => hunseen.mp unseen (hshown.mp hs)⟩
  · exact fun hs => shown _ (hshown.mp hs)

theorem isShown_replaced {o : Option Query}
    (queries : ∀ x, s'.queries.get? x = if x = query then o else s.queries.get? x)
    (h : s'.IsShown conv id) :
    s.IsShown conv id ∨ ∃ q, o = some q ∧ q.Shows conv id := by
  obtain ⟨x, q, hq, hshows⟩ := h
  rw [queries] at hq
  split at hq
  · exact Or.inr ⟨q, hq, hshows⟩
  · exact Or.inl ⟨x, q, hq, hshows⟩

theorem isShown_congr
    (data : ∀ x, (s'.queries.get? x).map (·.state.data) = (s.queries.get? x).map (·.state.data)) :
    s'.IsShown conv id ↔ s.IsShown conv id := by
  have hiff : ∀ {p p' : Service}, (∀ x, (p'.queries.get? x).map (·.state.data) =
      (p.queries.get? x).map (·.state.data)) → p'.IsShown conv id → p.IsShown conv id := by
    rintro p p' hdata ⟨x, q', hq', hshows⟩
    have hx := hdata x
    rw [hq', Option.map_some] at hx
    obtain ⟨q, hq, hstate⟩ := Option.map_eq_some_iff.mp hx.symm
    refine ⟨x, q, hq, ?_⟩
    rw [Query.Shows, QueryState.shown] at hshows ⊢
    rwa [hstate]
  exact ⟨hiff data, hiff fun x => (data x).symm⟩

/-! ## The operations of a service -/

theorem evolves_fetchFailed (failure : Failure) :
    s.Evolves conv [] (s.fetchFailed conv query failure) := by
  cases hq : s.queries.get? query with
  | none =>
    rw [fetchFailed, hq]
    exact evolves_of_shown rfl rfl fun _ => id
  | some q =>
    simp only [fetchFailed, hq]
    refine evolves_foldl_unindex _ rfl rfl fun k hk => Or.inl ?_
    have hqueries : ∀ x, (s.queries.modify query (·.failed failure)).get? x =
        if x = query then some (q.failed failure) else s.queries.get? x := by
      intro x
      rw [Table.get?_modify]
      split
      · next e => rw [e, hq]; rfl
      · rfl
    refine (isShown_replaced hqueries hk).resolve_right ?_
    rintro ⟨p, hp, hshows⟩
    obtain rfl := Option.some.inj hp
    exact Query.not_shows_of_none rfl hshows

theorem evolves_fetched (data : QueryData) (metadata : Fields)
    (hq : s.queries.get? query = some q) :
    s.Evolves conv (stored conv data.all) (s.fetched conv query data metadata) := by
  have hqueries : ∀ x, (s.queries.modify query (·.landed data metadata)).get? x =
      if x = query then some (q.landed data metadata) else s.queries.get? x := by
    intro x
    rw [Table.get?_modify]
    split
    · next e => rw [e, hq]; rfl
    · rfl
  have hshown : ∀ {base : Service}, base.queries = s.queries.modify query (·.landed data metadata) →
      ∀ id, base.IsShown conv id →
        s.IsShown conv id ∨ ∃ write ∈ stored conv data.all, write.id = id := by
    intro base hbase id hs
    refine (isShown_replaced (fun x => hbase ▸ hqueries x) hs).imp_right ?_
    rintro ⟨p, hp, hshows⟩
    obtain rfl := Option.some.inj hp
    exact exists_stored hshows
  cases merges : q.merges with
  | false =>
    simp only [fetched, hq, merges, Bool.false_eq_true, if_false]
    have hnone : s.Evolves conv (stored conv data.all) ([].foldl (unindex conv query)
        { s with
          entities := keepItems conv s.entities data.all
          queries := s.queries.modify query (·.landed data metadata) }) :=
      evolves_foldl_unindex [] (keepItems_eq _ _) rfl (hshown rfl)
    exact hnone
  | true =>
    simp only [fetched, hq, merges, if_true]
    let left := (indexedIds conv q).filter (· ∉ idsOf conv data.all)
    have hleft : s.Evolves conv (stored conv data.all) (left.foldl (unindex conv query)
        { s with
          entities := keepItems conv s.entities data.all
          queries := s.queries.modify query (·.landed data metadata) }) :=
      evolves_foldl_unindex _ (keepItems_eq _ _) rfl (hshown rfl)
    refine hleft.congr rfl (fun _ => isShown_of_eq rfl) ?_
    intro id x hunseen
    rw [Index.mem_holders_foldl_add]
    refine or_iff_left ?_
    rintro ⟨-, hid⟩
    refine hunseen ⟨query, q.landed data metadata, ?_, hid⟩
    rw [queries_foldl_unindex, hqueries, if_pos rfl]

theorem evolves_vacuum (h : s.vacuum? conv query = some s') : s.Evolves conv [] s' := by
  obtain ⟨q, -, rfl⟩ := vacuum?_eq_some.mp h
  refine evolves_foldl_unindex _ rfl rfl fun id hs => Or.inl ?_
  obtain ⟨x, p, hp, hshows⟩ := hs
  rw [Table.get?_erase] at hp
  split at hp
  · cases hp
  · exact ⟨x, p, hp, hshows⟩

/-- A change evicts its id exactly if it releases it. -/
theorem Mirror.evicts_iff (h : s.Mirror conv) :
    s.evicts conv id change = true ↔ s.Releases conv (s.mergeChange conv id change) id := by
  simp only [evicts, Bool.and_eq_true, h.tidy.contains_iff, List.isEmpty_iff, Bool.not_eq_true',
    ← Bool.not_eq_true, shownByAny_eq_true]
  exact ⟨fun he => ⟨he.1.1, he.1.2, he.2⟩, fun he => ⟨⟨he.held, he.ended⟩, he.unseen⟩⟩

theorem Mirror.evolves_mergeChange (h : s.Mirror conv) (named : conv.idOf change.item = some id) :
    s.Evolves conv [change.write id] (s.mergeChange conv id change) := by
  have hother : ∀ {k}, id ≠ k → ¬s.Releases conv (s.mergeChange conv id change) k := by
    intro k hk
    exact not_releases_of_holders (by rw [holders_mergeChange, if_neg hk])
  refine ⟨?_, ?_, ?_⟩
  · intro k hr
    by_cases hk : id = k
    · subst hk
      rw [get?_entities_mergeChange, if_pos rfl, if_pos (Or.inr (h.evicts_iff.mpr hr))]
    · exact absurd hr (hother hk)
  · intro k hr
    rw [List.foldl_cons, List.foldl_nil, Write.get?_apply, get?_entities_mergeChange]
    by_cases hk : id = k
    · subst hk
      rw [← h.evicts_iff] at hr
      simp [Change.write, hr]
    · simp [Change.write, hk]
  · rintro k ⟨x, p, hp, hshows⟩
    by_cases hk : k = id
    · exact Or.inr ⟨_, List.mem_singleton_self _, hk.symm⟩
    · rw [get?_queries_mergeChange] at hp
      obtain ⟨q, hq, rfl⟩ := Option.map_eq_some_iff.mp hp
      exact Or.inl ⟨x, q, hq,
        (Query.shows_merged_of_ne (h.fits hq) (h.mirrors id hq) named hk).mp hshows⟩

/-! ## What follows for one transition -/

/-- An evolution that removes nothing of what it stores evicts exactly what it should. -/
theorem Evolves.evictsExactly (h : s.Evolves conv writes s')
    (alone : ∀ write ∈ writes, ∀ other ∈ writes, write.item? = none → other = write) :
    s.EvictsExactly conv writes s' := by
  intro id hthere
  by_cases hr : s.Releases conv s' id
  · exact iff_of_true (h.dropped hr) (Or.inr hr)
  rw [h.kept hr, Write.get?_foldl_apply]
  cases hlast : Write.latest? writes id with
  | none =>
    have hnone : ∀ write ∈ writes, write.id ≠ id := by
      rintro write hmem rfl
      obtain ⟨last, hsome⟩ := Write.exists_latest? hmem
      rw [hlast] at hsome
      cases hsome
    obtain ⟨item, hitem⟩ := hthere.resolve_right fun ⟨write, hmem, hid⟩ => hnone write hmem hid
    refine iff_of_false (by rw [hitem]; exact Option.some_ne_none _) ?_
    rintro (⟨write, hmem, hid, -⟩ | hr')
    · exact hnone write hmem hid
    · exact hr hr'
  | some last =>
    obtain ⟨hmem, hid⟩ := Write.mem_of_latest? hlast
    constructor
    · exact fun hitem => Or.inl ⟨last, hmem, hid, hitem⟩
    · rintro (⟨write, hwrite, -, hitem⟩ | hr')
      · rwa [alone write hwrite last hmem hitem]
      · exact absurd hr' hr

theorem Mirror.evictsExactly_mergeAll (h : s.Mirror conv) (change : Change) :
    s.EvictsExactly conv (s.merging conv [change]) (s.mergeAll conv [change]).service := by
  cases ha : s.admits? conv change with
  | none =>
    have hwrites : s.merging conv [change] = [] := by simp [merging, ha]
    rw [hwrites, mergeAll_singleton_of_rejects ha]
    exact evolves_refl.evictsExactly (List.forall_mem_nil _)
  | some id =>
    have hwrites : s.merging conv [change] = [change.write id] := by simp [merging, ha]
    rw [hwrites, mergeAll_singleton_of_admits ha]
    refine (h.evolves_mergeChange (admits?_eq_some.mp ha).1).evictsExactly ?_
    intro write hwrite other hother _
    rw [List.mem_singleton.mp hwrite, List.mem_singleton.mp hother]

theorem altersOnly_land (answer : Except Failure (QueryData × Fields)) :
    AltersOnly query s (s.land conv query answer) := by
  intro x hx
  refine ⟨by rw [get?_queries_land, if_neg hx], fun id => ?_⟩
  cases hq : s.queries.get? query with
  | none => cases answer <;> simp [land, fetched, fetchFailed, hq]
  | some q =>
    cases answer with
    | ok result =>
      simp only [land, fetched, hq]
      split
      · rw [Index.mem_holders_foldl_add, mem_holders_foldl_unindex]
        simp [hx]
      · rfl
    | error failure =>
      simp only [land, fetchFailed, hq]
      rw [mem_holders_foldl_unindex]
      simp [hx]

theorem altersOnly_vacuum (h : s.vacuum? conv query = some s') : AltersOnly query s s' := by
  intro x hx
  refine ⟨by rw [get?_queries_vacuum h, if_neg (Ne.symm hx)], fun id => ?_⟩
  obtain ⟨q, -, rfl⟩ := vacuum?_eq_some.mp h
  rw [mem_holders_foldl_unindex]
  simp [hx]

/-! ## What follows for a run of them -/

theorem Evolves.accounts (h : s.Evolves conv more s') (before : s.Accounts conv writes) :
    s'.Accounts conv (writes ++ more) := by
  intro id hshown
  have hkept : ¬s.Releases conv s' id := fun hr => hr.unseen hshown
  rw [h.kept hkept, Write.get?_foldl_apply, Write.latest?_append]
  cases hlast : Write.latest? more id with
  | some last => exact ⟨last, rfl, rfl⟩
  | none =>
    refine (h.shown hshown).elim (before id) ?_
    rintro ⟨write, hmem, rfl⟩
    obtain ⟨last, hsome⟩ := Write.exists_latest? hmem
    rw [hlast] at hsome
    cases hsome

theorem Accounts.mergeAll (mirror : s.Mirror conv) (h : s.Accounts conv writes)
    (changes : List Change) :
    (s.mergeAll conv changes).service.Accounts conv (writes ++ s.merging conv changes) := by
  induction changes generalizing s writes with
  | nil => rwa [merging, List.append_nil]
  | cons change changes ih =>
    rw [mergeAll_cons, merging]
    cases ha : s.admits? conv change with
    | none =>
      rw [mergeAll_singleton_of_rejects ha]
      exact ih mirror h
    | some id =>
      have hid := (admits?_eq_some.mp ha).1
      rw [mergeAll_singleton_of_admits ha, List.append_cons]
      exact ih (mirror.mergeChange hid) ((mirror.evolves_mergeChange hid).accounts h)

end Service

end LiveQuery
