import LiveQuery.Proofs.Service.Mirror
import LiveQuery.Proofs.Service.Staleness
import Mathlib.Data.List.Induction
import Mathlib.Data.List.Nodup

/-!
# Updates of one item in any order

Updates that arrive out of order are sorted out by their marks of age: one that is older
than the cached item is discarded. The cache forgets an item with its last membership,
and its mark of age with it, so that of all updates exactly those since the last such
eviction are compared with each other. The newest of these decides whether a list shows
the item, and is what it shows (`Service.exists_newest`).
-/

namespace LiveQuery

variable {conv : Conventions} {id : ItemId} {change : Change}

/-! ## Marks of age -/

/-- The whole number in the field `updatedAt` of an item. -/
def Item.time? (item : Json) : Option Int :=
  match item.get? "updatedAt" with
  | some (.number (.int time)) => some time
  | _ => none

theorem Item.get?_of_time? {item : Json} {time : Int} (h : Item.time? item = some time) :
    item.get? "updatedAt" = some (Json.int time) := by
  unfold Item.time? at h
  split at h
  · next hitem =>
    rw [← Option.some.inj h]
    exact hitem
  · cases h

def Change.time (change : Change) : Int := (Item.time? change.item).getD 0

/-- Does a change update the item with an id, and carry a time that doubles represent
exactly? -/
structure Change.IsTimed (conv : Conventions) (id : ItemId) (change : Change) : Prop where
  update : change.kind = .updated ∨ change.kind = .patched
  named : conv.idOf change.item = some id
  marked : Item.time? change.item = some change.time
  small : change.time.natAbs ≤ 2 ^ 53

namespace Change.IsTimed

variable {earlier : Change}

theorem not_removed (h : change.IsTimed conv id) : change.kind ≠ .removed := by
  rcases h.update with hkind | hkind
  · rw [hkind]
    decide
  · rw [hkind]
    decide

theorem isStale_eq (cached : earlier.IsTimed conv id) (incoming : change.IsTimed conv id) :
    Item.isStale earlier.item change.item = decide (change.time < earlier.time) := by
  rw [Item.isStale_eq_of_marks (.updatedAt (Item.get?_of_time? cached.marked)
    (Item.get?_of_time? incoming.marked)), Binary64.nearestInt_of_small incoming.small,
    Binary64.nearestInt_of_small cached.small]

end Change.IsTimed

namespace Query

variable {q : Query} {held : Bool}

/-- Does a list show an id exactly if an item under it is accepted, and then only that
item? -/
structure Settles (conv : Conventions) (q : Query) (id : ItemId) (item : Json) : Prop where
  shows : q.Shows conv id ↔ q.accepts item = true
  only : ∀ shown ∈ q.state.shown, conv.idOf shown = some id → shown = item

theorem Follows.settles_merged (h : q.Follows) (fits : q.Fits)
    (mirrors : q.Mirrors conv id held) (update : change.kind ≠ .removed)
    (named : conv.idOf change.item = some id) :
    (q.merged conv id held change).Settles conv id change.item where
  shows := by
    rw [shows_merged_self fits mirrors named h.merges, accepts_merge]
    have hwants : q.wants change = q.accepts change.item := by
      simp [wants, update]
    rw [hwants]
    exact and_iff_left (Or.inr ⟨h.find, h.fetched⟩)
  only := by
    intro item hitem hid
    cases wants : q.wants change with
    | false =>
      rw [shown_merge_of_not_wants fits mirrors h.merges wants] at hitem
      have hne := (List.mem_filter.mp hitem).2
      exact absurd hid (bne_iff_ne.mp hne)
    | true => exact only_merged fits mirrors h.merges wants item hitem hid

end Query

/-! ## Runs of updates -/

/-- Is no change of a run newer than this one of it? -/
def Change.IsNewest (change : Change) (changes : List Change) : Prop :=
  change ∈ changes ∧ ∀ other ∈ changes, other.time ≤ change.time

namespace Service

variable {s : Service} {query : QueryId} {q : Query}

/-- Does a run of changes fall in two where the id was last evicted? After the first part
the id is not cached, and within the second it stays cached up to its last change. -/
structure SplitsAtEviction (conv : Conventions) (s : Service) (id : ItemId)
    (early late : List Change) : Prop where
  evicted : early ≠ [] → (s.mergeAll conv early).service.entities.get? id = none
  kept : ∀ seen, seen <+: late → seen ≠ [] → seen ≠ late →
    (s.mergeAll conv (early ++ seen)).service.entities.get? id ≠ none

/-- Does a list show what the newest of some updates says, and is that update cached, if
any is? -/
structure ShowsNewest (conv : Conventions) (s : Service) (query : QueryId) (id : ItemId)
    (accepts : Json → Bool) (newest : Change) : Prop where
  query : ∃ q, s.queries.get? query = some q ∧ q.Follows ∧ q.accepts = accepts ∧
    q.Settles conv id newest.item
  entity : ∀ cached, s.entities.get? id = some cached → cached = newest.item

theorem showsNewest_mergeAll (mirror : s.Mirror conv) (hq : s.queries.get? query = some q)
    (follows : q.Follows) (update : change.kind ≠ .removed)
    (named : conv.idOf change.item = some id) (intime : s.isLate conv id change = false) :
    (s.mergeAll conv [change]).service.ShowsNewest conv query id q.accepts change := by
  rw [mergeAll_singleton_of_admits (admits?_eq_some.mpr ⟨named, intime⟩)]
  refine ⟨⟨q.merged conv id (decide (query ∈ s.index.holders id)) change, ?_,
    follows.merged (mirror.fits hq), Query.accepts_merge,
    follows.settles_merged (mirror.fits hq) (mirror.mirrors id hq) update named⟩, ?_⟩
  · rw [get?_queries_mergeChange, hq]
    rfl
  · intro cached hcached
    rw [get?_entities_mergeChange, if_pos rfl] at hcached
    split at hcached
    · cases hcached
    · exact (Option.some.inj hcached).symm

theorem isLate_of_update (update : change.kind = .updated ∨ change.kind = .patched) :
    s.isLate conv id change =
      ((s.entities.get? id).map (conv.isStale · change.item)).getD false := by
  unfold isLate
  rcases update with hkind | hkind
  · rw [hkind]
    cases s.entities.get? id <;> rfl
  · rw [hkind]
    cases s.entities.get? id <;> rfl

/-- While the newest update is cached, an older one changes nothing and a newer one takes
its place. -/
theorem ShowsNewest.step {newest : Change} {accepts : Json → Bool} (mirror : s.Mirror conv)
    (stale : conv.isStale = Item.isStale) (h : s.ShowsNewest conv query id accepts newest)
    (cached : s.entities.get? id ≠ none) (timed : newest.IsTimed conv id)
    (next : change.IsTimed conv id) (distinct : change.time ≠ newest.time) :
    (change.time < newest.time ∧
        (s.mergeAll conv [change]).service.ShowsNewest conv query id accepts newest) ∨
      (newest.time < change.time ∧
        (s.mergeAll conv [change]).service.ShowsNewest conv query id accepts change) := by
  obtain ⟨item, hitem⟩ := Option.ne_none_iff_exists'.mp cached
  obtain rfl := h.entity item hitem
  have hlate : s.isLate conv id change = decide (change.time < newest.time) := by
    rw [isLate_of_update next.update, hitem, stale]
    exact timed.isStale_eq next
  rcases Int.lt_or_gt_of_ne distinct with hlt | hgt
  · refine Or.inl ⟨hlt, ?_⟩
    have hrejects : s.admits? conv change = none := by
      unfold admits?
      rw [next.named]
      exact if_pos (hlate.trans (decide_eq_true hlt))
    rwa [mergeAll_singleton_of_rejects hrejects]
  · refine Or.inr ⟨hgt, ?_⟩
    obtain ⟨q, hq, follows, rfl, -⟩ := h.query
    have hintime : s.isLate conv id change = false :=
      hlate.trans (decide_eq_false (Int.not_lt.mpr (Int.le_of_lt hgt)))
    exact showsNewest_mergeAll mirror hq follows next.not_removed next.named hintime

theorem splitsAtEviction_singleton {early : List Change}
    (evicted : early ≠ [] → (s.mergeAll conv early).service.entities.get? id = none) :
    s.SplitsAtEviction conv id early [change] where
  evicted := evicted
  kept := by
    intro seen hseen hsome hall
    rcases List.prefix_concat_iff.mp (show seen <+: [] ++ [change] from hseen) with h | h
    · exact absurd h hall
    · exact absurd (List.prefix_nil.mp h) hsome

theorem SplitsAtEviction.append {early late : List Change}
    (h : s.SplitsAtEviction conv id early late)
    (cached : (s.mergeAll conv (early ++ late)).service.entities.get? id ≠ none) :
    s.SplitsAtEviction conv id early (late ++ [change]) where
  evicted := h.evicted
  kept := by
    intro seen hseen hsome hall
    rcases List.prefix_concat_iff.mp hseen with heq | hprefix
    · exact absurd heq hall
    · by_cases hlate : seen = late
      · rw [hlate]
        exact cached
      · exact h.kept seen hprefix hsome hlate

/-- After timed updates of one item in any order, a list that follows events shows what
the newest update since the last eviction says. By induction on the last update: of those
before it, it matters which is the newest and whether that one is still cached. -/
theorem exists_newest {changes : List Change} (mirror : s.Mirror conv)
    (stale : conv.isStale = Item.isStale) (hq : s.queries.get? query = some q)
    (follows : q.Follows) (nonempty : changes ≠ [])
    (timed : ∀ change ∈ changes, change.IsTimed conv id)
    (distinct : (changes.map Change.time).Nodup)
    (fresh : ∀ cached, s.entities.get? id = some cached →
      ∀ change ∈ changes, Item.isStale cached change.item = false) :
    ∃ early late newest, changes = early ++ late ∧ s.SplitsAtEviction conv id early late ∧
      newest.IsNewest late ∧
      (s.mergeAll conv changes).service.ShowsNewest conv query id q.accepts newest := by
  induction changes using List.reverseRecOn with
  | nil => exact absurd rfl nonempty
  | append_singleton changes change ih =>
    have hlast : change ∈ changes ++ [change] := List.mem_concat_self
    have hchange := timed change hlast
    have hself : change.IsNewest [change] :=
      ⟨List.mem_singleton_self _, fun other h => by rw [List.mem_singleton.mp h]⟩
    by_cases hfirst : changes = []
    · subst hfirst
      have hintime : s.isLate conv id change = false := by
        rw [isLate_of_update hchange.update, stale]
        cases hent : s.entities.get? id with
        | none => rfl
        | some cached => exact fresh cached hent change hlast
      exact ⟨[], [change], change, rfl, splitsAtEviction_singleton (absurd rfl), hself,
        showsNewest_mergeAll mirror hq follows hchange.not_removed hchange.named hintime⟩
    · rw [List.map_append, List.nodup_append] at distinct
      obtain ⟨hdistinct, -, hother⟩ := distinct
      obtain ⟨early, late, newest, hsplit, hevict, hnewest, hshows⟩ := ih hfirst
        (fun c h => timed c (List.mem_append_left _ h)) hdistinct
        fun cached hc c h => fresh cached hc c (List.mem_append_left _ h)
      have hmirror := mirror.mergeAll changes
      rw [mergeAll_append]
      by_cases hcached : (s.mergeAll conv changes).service.entities.get? id = none
      · obtain ⟨q', hq', hfollows, haccepts, -⟩ := hshows.query
        have hintime : (s.mergeAll conv changes).service.isLate conv id change = false := by
          rw [isLate_of_update hchange.update, hcached]
          rfl
        refine ⟨changes, [change], change, rfl, splitsAtEviction_singleton fun _ => hcached,
          hself, ?_⟩
        rw [← haccepts]
        exact showsNewest_mergeAll hmirror hq' hfollows hchange.not_removed hchange.named
          hintime
      · have hmem : newest ∈ changes := by
          rw [hsplit]
          exact List.mem_append_right early hnewest.1
        have hne : change.time ≠ newest.time := fun heq =>
          hother newest.time (List.mem_map_of_mem hmem) change.time
            (List.mem_map_of_mem (List.mem_singleton_self _)) heq.symm
        have hsplits : s.SplitsAtEviction conv id early (late ++ [change]) :=
          hevict.append (hsplit ▸ hcached)
        have hall : changes ++ [change] = early ++ (late ++ [change]) := by
          rw [hsplit, List.append_assoc]
        rcases hshows.step hmirror stale hcached
          (timed newest (List.mem_append_left _ hmem)) hchange hne with
          ⟨hlt, hshows⟩ | ⟨hgt, hshows⟩
        · refine ⟨early, late ++ [change], newest, hall, hsplits,
            ⟨List.mem_append_left _ hnewest.1, ?_⟩, hshows⟩
          intro other h
          rcases List.mem_append.mp h with h | h
          · exact hnewest.2 other h
          · rw [List.mem_singleton.mp h]
            exact Int.le_of_lt hlt
        · refine ⟨early, late ++ [change], change, hall, hsplits,
            ⟨List.mem_concat_self, ?_⟩, hshows⟩
          intro other h
          rcases List.mem_append.mp h with h | h
          · exact Int.le_trans (hnewest.2 other h) (Int.le_of_lt hgt)
          · rw [List.mem_singleton.mp h]

end Service

end LiveQuery
