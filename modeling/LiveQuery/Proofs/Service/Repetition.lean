import LiveQuery.Proofs.Service.Eviction

/-!
# A change that comes twice

A change that has been merged finds everything as it has left it: the cached item is the item
itself, so the change is not stale, a query that shows the item shows it in this form, and a query
that does not show it has no place for it or does not want it. So the second time no query and no
membership changes (`Service.Mirror.mergeChange_again`). The entity is another matter. If the first
application has taken the item out of its last result the entity has been dropped, and as nothing
tells an id that has been dropped from one that has never been known, the second application
caches it again.
-/

namespace LiveQuery

theorem Json.compare_self (value : Json) : value.compare value ≠ .lt := by
  cases value with
  | null => nofun
  | number n =>
    have hself : compare n.toBinary64.place n.toBinary64.place = .eq := Std.ReflCmp.compare_self
    exact fun h => Ordering.noConfusion (hself.symm.trans h)
  | string s =>
    have hself : compare s s = .eq := Std.ReflCmp.compare_self
    exact fun h => Ordering.noConfusion (hself.symm.trans h)
  | bool b => cases b <;> decide
  | array | object => nofun

theorem Item.isStale_self (item : Json) : Item.isStale item item = false := by
  have hfields : ∀ fields : List String, Item.isStaleBy fields item item = false := by
    intro fields
    induction fields with
    | nil => rfl
    | cons field fields ih =>
      unfold Item.isStaleBy
      cases item.get? field with
      | none => exact ih
      | some mark =>
        dsimp only
        split
        · exact beq_eq_false_iff_ne.mpr mark.compare_self
        · exact ih
  exact hfields _

theorem Index.Tidy.set_holders {index : Index} (tidy : index.Tidy) (id : ItemId) :
    index.set id (index.holders id) = index := by
  unfold Index.set Index.holders
  cases hid : index.get? id with
  | none => exact Table.erase_eq_self hid
  | some holders =>
    have hsome : holders.isEmpty = false :=
      List.isEmpty_eq_false_iff.mpr (tidy id holders hid).1
    rw [Option.getD_some, hsome]
    exact Table.insert_eq_self hid

namespace Query

variable {conv : Conventions} {q : Query} {id : ItemId} {item : Json} {change : Change}
variable {held again : Bool}

theorem replace_eq_self (fits : q.Fits) (shown : q.Shows conv id)
    (only : ∀ old ∈ q.state.shown, conv.idOf old = some id → old = item) :
    q.replace conv id item = q := by
  have fetched := data_isSome_of_shows shown
  cases hm : q.descriptor.method with
  | get =>
    obtain ⟨old, hd⟩ := fits.eq_item hm fetched
    rw [shown_of_data _ hd] at only
    rw [shows_iff, shown_of_data _ hd] at shown
    obtain ⟨one, hmem, hid⟩ := shown
    obtain rfl := List.mem_singleton.mp hmem
    obtain rfl := only one hmem hid
    simp only [replace, hm, withData, ← hd]
  | find =>
    have hd := fits.eq_list hm fetched
    have hsame : (q.state.shown.map fun old => if conv.idOf old == some id then item else old) =
        q.state.shown := by
      refine (List.map_congr_left fun old hmem => ?_).trans (List.map_id _)
      split
      · next hold => exact (only old hmem (beq_iff_eq.mp hold)).symm
      · rfl
    simp only [replace, hm, mapList, hd, hsame]
    rw [← hd]

section Mirrored

variable (fits : q.Fits) (mirrors : q.Mirrors conv id held)

include fits mirrors in
theorem effect_merged (hid : conv.idOf change.item = some id)
    (after : (q.merged conv id held change).Mirrors conv id again) :
    (q.merged conv id held change).effect again change = .stays ∨
      (q.merged conv id held change).effect again change = .unaffected := by
  have hwants : (q.merged conv id held change).wants change = q.wants change := by
    rw [wants, accepts_merge]
    rfl
  cases he : (q.merged conv id held change).effect again change with
  | stays => exact Or.inl rfl
  | unaffected => exact Or.inr rfl
  | leaves =>
    obtain ⟨hmerges, hagain, hnot⟩ := effect_eq_leaves.mp he
    rw [merges_merge] at hmerges
    have hshows := (shows_merged_self fits mirrors hid hmerges).mp (after.mp hagain).2
    rw [hwants, hshows.1] at hnot
    cases hnot
  | joins =>
    obtain ⟨hmerges, hagain, hwanted, hfind, hfetched⟩ := effect_eq_joins.mp he
    have hsecond := hmerges
    rw [merges_merge] at hmerges
    rw [hwants] at hwanted
    rw [descriptor_merge] at hfind
    have hbefore : q.state.data.isSome = true := by
      by_contra hnone
      have hsame : q.merged conv id held change = q :=
        merged_of_none mirrors (Option.not_isSome_iff_eq_none.mp hnone)
      rw [hsame] at hfetched
      exact hnone hfetched
    have hshows := (shows_merged_self fits mirrors hid hmerges).mpr
      ⟨hwanted, Or.inr ⟨hfind, hbefore⟩⟩
    rw [after.mpr ⟨hsecond, hshows⟩] at hagain
    cases hagain

include fits mirrors in
theorem merged_merged (hid : conv.idOf change.item = some id)
    (after : (q.merged conv id held change).Mirrors conv id again) :
    (q.merged conv id held change).merged conv id again change = q.merged conv id held change := by
  rcases effect_merged fits mirrors hid after with he | he
  · obtain ⟨hmerges, hagain, hwanted⟩ := effect_eq_stays.mp he
    rw [merges_merge] at hmerges
    have hwants : q.wants change = true := by
      rwa [wants, accepts_merge] at hwanted
    rw [Query.merged, he]
    exact replace_eq_self (fits.merged mirrors) (after.mp hagain).2
      (only_merged fits mirrors hmerges hwants)
  · rw [Query.merged, he]
    rfl

end Mirrored

end Query

namespace Service

variable {conv : Conventions} {s : Service} {id : ItemId} {change : Change}

theorem isLate_mergeChange (stale : conv.isStale = Item.isStale) :
    (s.mergeChange conv id change).isLate conv id change = false := by
  have hwritten : ∀ cached, (s.mergeChange conv id change).entities.get? id = some cached →
      conv.isStale cached change.item = false := by
    intro cached hcached
    rw [get?_entities_mergeChange, if_pos rfl] at hcached
    split at hcached
    · cases hcached
    · rw [stale, ← Option.some.inj hcached]
      exact Item.isStale_self _
  unfold isLate
  cases change.kind with
  | created | removed => rfl
  | updated | patched =>
    cases hcached : (s.mergeChange conv id change).entities.get? id with
    | none => rfl
    | some cached => exact hwritten cached hcached

namespace Mirror

theorem affected_mergeChange (h : s.Mirror conv) (named : conv.idOf change.item = some id)
    {effect : Effect} (alters : effect = .leaves ∨ effect = .joins) :
    (s.mergeChange conv id change).affected id change [effect] = [] := by
  refine List.eq_nil_iff_forall_not_mem.mpr fun x hx => ?_
  obtain ⟨p, hp, he⟩ := mem_affected.mp hx
  have hafter := (h.mergeChange named).mirrors id hp
  rw [get?_queries_mergeChange] at hp
  obtain ⟨q, hq, rfl⟩ := Option.map_eq_some_iff.mp hp
  have hsecond : _ = Effect.stays ∨ _ = Effect.unaffected :=
    Query.effect_merged (h.fits hq) (h.mirrors id hq) named hafter
  have heffect : effect = .stays ∨ effect = .unaffected := List.mem_singleton.mp he ▸ hsecond
  rcases alters with rfl | rfl
  · rcases heffect with heffect | heffect <;> cases heffect
  · rcases heffect with heffect | heffect <;> cases heffect

/-- What a change does the second time: at most, it caches an item that the first time has been
dropped with its last membership. -/
theorem mergeChange_again (h : s.Mirror conv) (named : conv.idOf change.item = some id) :
    ((s.mergeChange conv id change).mergeChange conv id change).queries =
        (s.mergeChange conv id change).queries ∧
      ((s.mergeChange conv id change).mergeChange conv id change).index =
        (s.mergeChange conv id change).index ∧
      ((s.mergeChange conv id change).mergeChange conv id change).entities =
        if change.kind ≠ .removed ∧ s.evicts conv id change = true then
          (s.mergeChange conv id change).entities.insert id change.item
        else (s.mergeChange conv id change).entities := by
  have hafter := h.mergeChange named
  have hqueries : ((s.mergeChange conv id change).mergeChange conv id change).queries =
      (s.mergeChange conv id change).queries := by
    refine queries_mergeChange.trans (Table.map_eq_self fun x p hp => ?_)
    have hmirrors := hafter.mirrors id hp
    rw [get?_queries_mergeChange] at hp
    obtain ⟨q, hq, rfl⟩ := Option.map_eq_some_iff.mp hp
    exact Query.merged_merged (h.fits hq) (h.mirrors id hq) named hmirrors
  have hindex : ((s.mergeChange conv id change).mergeChange conv id change).index =
      (s.mergeChange conv id change).index := by
    refine Eq.trans ?_ (hafter.tidy.set_holders id)
    show Index.set _ id (List.filter _ _ ++ _) = _
    rw [h.affected_mergeChange named (Or.inl rfl), h.affected_mergeChange named (Or.inr rfl),
      List.append_nil, List.filter_eq_self.mpr fun x _ => decide_eq_true List.not_mem_nil]
  have hkept : (s.mergeChange conv id change).evicts conv id change = false := by
    refine Bool.eq_false_iff.mpr fun he => ?_
    exact not_releases_of_holders (by rw [hindex]) (hafter.evicts_iff.mp he)
  have hfirst : (s.mergeChange conv id change).entities.get? id = _ := get?_entities_mergeChange
  rw [if_pos rfl] at hfirst
  refine ⟨hqueries, hindex, ?_⟩
  rw [entities_mergeChange, hkept, if_neg Bool.false_ne_true]
  by_cases hremoved : change.kind = .removed
  · rw [if_pos (Or.inl hremoved)] at hfirst
    rw [if_pos hremoved, if_neg fun hc => hc.1 hremoved, Table.erase_eq_self hfirst]
  · rw [if_neg hremoved]
    by_cases hevicts : s.evicts conv id change = true
    · rw [if_pos ⟨hremoved, hevicts⟩]
    · rw [if_neg (not_or.mpr ⟨hremoved, hevicts⟩)] at hfirst
      rw [if_neg fun hc => hevicts hc.2, Table.insert_eq_self hfirst]

end Mirror

/-- Does a change write an item that it takes out of its last result, so that its entity is
dropped? -/
structure Drops (conv : Conventions) (s : Service) (change : Change) (id : ItemId) : Prop where
  written : change.kind ≠ .removed
  named : conv.idOf change.item = some id
  releases : s.Releases conv (s.mergeAll conv [change]).service id

/-- A change that is merged a second time changes no query and no membership, and no entity but
its own, if the first time has dropped that. -/
theorem Mirror.mergeAll_again (h : s.Mirror conv) (stale : conv.isStale = Item.isStale)
    (change : Change) :
    ((s.mergeAll conv [change]).service.mergeAll conv [change]).service.queries =
        (s.mergeAll conv [change]).service.queries ∧
      ((s.mergeAll conv [change]).service.mergeAll conv [change]).service.index =
        (s.mergeAll conv [change]).service.index ∧
      ((∀ id, ¬s.Drops conv change id) →
        ((s.mergeAll conv [change]).service.mergeAll conv [change]).service.entities =
          (s.mergeAll conv [change]).service.entities) ∧
      ∀ id, s.Drops conv change id →
        (s.mergeAll conv [change]).service.entities.get? id = none ∧
          ((s.mergeAll conv [change]).service.mergeAll conv [change]).service.entities =
            (s.mergeAll conv [change]).service.entities.insert id change.item := by
  cases ha : s.admits? conv change with
  | none =>
    rw [mergeAll_singleton_of_rejects ha, mergeAll_singleton_of_rejects ha]
    refine ⟨rfl, rfl, fun _ => rfl, fun id hdrops => ?_⟩
    have hreleases := hdrops.releases
    rw [mergeAll_singleton_of_rejects ha] at hreleases
    exact absurd hreleases (not_releases_of_holders rfl)
  | some id =>
    obtain ⟨hnamed, -⟩ := admits?_eq_some.mp ha
    have hagain : (s.mergeChange conv id change).admits? conv change = some id :=
      admits?_eq_some.mpr ⟨hnamed, isLate_mergeChange stale⟩
    have hdrops : s.Drops conv change id ↔
        change.kind ≠ .removed ∧ s.evicts conv id change = true := by
      rw [h.evicts_iff, ← mergeAll_singleton_of_admits ha]
      constructor
      · exact fun hd => ⟨hd.written, hd.releases⟩
      · exact fun hd => ⟨hd.1, hnamed, hd.2⟩
    obtain ⟨hqueries, hindex, hentities⟩ := h.mergeChange_again hnamed
    rw [mergeAll_singleton_of_admits ha, mergeAll_singleton_of_admits hagain]
    refine ⟨hqueries, hindex, ?_, ?_⟩
    · intro hkept
      rw [hentities, if_neg fun he => hkept id (hdrops.mpr he)]
    · intro k hk
      obtain rfl : id = k := Option.some.inj (hnamed.symm.trans hk.named)
      have he := hdrops.mp hk
      refine ⟨?_, by rw [hentities, if_pos he]⟩
      rw [get?_entities_mergeChange, if_pos rfl, if_pos (Or.inr he.2)]

end Service

end LiveQuery
