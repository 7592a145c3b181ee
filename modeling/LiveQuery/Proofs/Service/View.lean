import LiveQuery.Proofs.Service.Mirror
import Mathlib.Data.List.Perm.Basic

/-!
# A list that is followed is the list fetched anew

The independent specification of a merging list is a collection of items to which changes
are applied naively: a removed item is deleted by its id, any other is put in the place of
the item with its id (`Collection.follow`). What the list shows is, up to order, what its
filter selects from the collection (`Query.Views`), and every change that is not late
keeps it so (`Query.Views.mergeAll`), whichever way the change gets there: through
joining, staying, leaving or no effect at all. The `total` follows the number of items
shown (`Query.Counts`).
-/

namespace LiveQuery

open Service (idsOf mem_idsOf)

variable {conv : Conventions} {id k : ItemId} {items collection : List Json} {item : Json}
variable {change : Change}

/-! ## Collections -/

namespace Collection

def without (conv : Conventions) (id : ItemId) (items : List Json) : List Json :=
  items.filter fun old => conv.idOf old != some id

/-- A collection after a change: a removed item is deleted, any other takes the place of
the one with its id. An item without id changes nothing. -/
def follow (conv : Conventions) (collection : List Json) (change : Change) : List Json :=
  match conv.idOf change.item with
  | none => collection
  | some id =>
    if change.kind = .removed then without conv id collection
    else without conv id collection ++ [change.item]

theorem without_eq_self (h : id ∉ idsOf conv items) : without conv id items = items := by
  refine List.filter_eq_self.mpr fun old hmem => bne_iff_ne.mpr fun hid => h ?_
  exact mem_idsOf.mpr ⟨old, hmem, hid⟩

theorem without_cons_of_eq (h : conv.idOf item = some id) :
    without conv id (item :: items) = without conv id items := by
  simp [without, h]

theorem without_cons_of_ne (h : conv.idOf item ≠ some id) :
    without conv id (item :: items) = item :: without conv id items := by
  simp [without, h]

theorem not_mem_idsOf_without : id ∉ idsOf conv (without conv id items) :=
  fun h => (Service.mem_idsOf_filter.mp h).2 rfl

theorem nodup_idsOf_without (h : (idsOf conv items).Nodup) :
    (idsOf conv (without conv id items)).Nodup :=
  (List.filter_sublist.filterMap conv.idOf).nodup h

theorem nodup_idsOf_follow (h : (idsOf conv collection).Nodup) (change : Change) :
    (idsOf conv (follow conv collection change)).Nodup := by
  unfold follow
  split
  · exact h
  · next id hid =>
    split
    · exact nodup_idsOf_without h
    · rw [Service.idsOf_append_singleton hid]
      exact (List.perm_append_singleton id _).nodup_iff.mpr
        (List.nodup_cons.mpr ⟨not_mem_idsOf_without, nodup_idsOf_without h⟩)

/-- Where ids are distinct, putting an item where its id stands is deleting what was
there and adding the item. -/
theorem map_replace_perm (distinct : (idsOf conv items).Nodup) (mem : id ∈ idsOf conv items) :
    (items.map fun old => if conv.idOf old == some id then item else old).Perm
      (without conv id items ++ [item]) := by
  induction items with
  | nil => cases mem
  | cons old items ih =>
    rw [List.map_cons]
    by_cases hold : conv.idOf old = some id
    · rw [idsOf, List.filterMap_cons_some hold, List.nodup_cons] at distinct
      have hfresh : without conv id items = items := without_eq_self distinct.1
      have hrest : (items.map fun old => if conv.idOf old == some id then item else old) =
          items := by
        refine (List.map_congr_left fun other hmem => ?_).trans (List.map_id _)
        have hne : conv.idOf other ≠ some id :=
          fun hid => distinct.1 (mem_idsOf.mpr ⟨other, hmem, hid⟩)
        simp [hne]
      rw [without_cons_of_eq hold, hfresh, hrest, hold, if_pos (beq_self_eq_true _)]
      exact (List.perm_append_singleton item items).symm
    · have hmem : id ∈ idsOf conv items := by
        obtain ⟨other, hother, hid⟩ := mem_idsOf.mp mem
        rcases List.mem_cons.mp hother with rfl | hother
        · exact absurd hid hold
        · exact mem_idsOf.mpr ⟨other, hother, hid⟩
      have hdistinct : (idsOf conv items).Nodup :=
        (List.Sublist.filterMap conv.idOf (List.sublist_cons_self old items)).nodup distinct
      rw [without_cons_of_ne hold, if_neg (by simpa using hold)]
      exact (ih hdistinct hmem).cons old

theorem filter_without (accepts : Json → Bool) :
    (without conv id items).filter accepts = without conv id (items.filter accepts) := by
  unfold without
  rw [List.filter_filter, List.filter_filter]
  exact List.filter_congr fun old _ => Bool.and_comm _ _

end Collection

/-- Does the metadata's total go up and down with the items? -/
structure Conventions.CountsTotal (conv : Conventions) : Prop where
  added : ∀ metadata, conv.itemAdded metadata = adjustTotal metadata 1
  removed : ∀ metadata, conv.itemRemoved metadata = adjustTotal metadata (-1)

/-! ## Counting -/

theorem Json.int64?_int {n : Int} (low : -0x8000000000000000 ≤ n) (high : n < 0x8000000000000000) :
    (Json.int n).int64? = some n := by
  unfold Json.int Json.int64?
  exact if_pos ⟨low, high⟩

theorem wrap64_eq_self {n : Int} (low : -0x8000000000000000 ≤ n) (high : n < 0x8000000000000000) :
    wrap64 n = n :=
  Int.bmod_eq_of_le low high

def total? (metadata : Fields) : Option Int := (Fields.get? metadata "total").bind Json.int64?

theorem adjustTotal_of_some {metadata : Fields} {total delta : Int}
    (h : total? metadata = some total) (low : -0x8000000000000000 ≤ total + delta)
    (high : total + delta < 0x8000000000000000) :
    adjustTotal metadata delta = metadata.insert "total" (Json.int (max (total + delta) 0)) := by
  rw [total?] at h
  rw [adjustTotal, h]
  dsimp only
  rw [wrap64_eq_self low high]

namespace Query

open Collection

variable {q : Query} {held : Bool}

/-! ## What a list shows -/

/-- Does a list that follows events show the accepted items of a collection? -/
structure Views (conv : Conventions) (q : Query) (collection : List Json) : Prop
    extends q.Follows where
  shown : q.state.shown.Perm (collection.filter q.accepts)
  distinct : (idsOf conv collection).Nodup

theorem Views.nodup_idsOf_shown (h : q.Views conv collection) :
    (idsOf conv q.state.shown).Nodup := by
  have hperm : (idsOf conv q.state.shown).Perm (idsOf conv (collection.filter q.accepts)) :=
    h.shown.filterMap conv.idOf
  exact hperm.nodup_iff.mpr ((List.filter_sublist.filterMap conv.idOf).nodup h.distinct)

/-- A change deletes the item from the list and adds its new form if that is wanted. -/
theorem Views.shown_merged (h : q.Views conv collection) (fits : q.Fits)
    (mirrors : q.Mirrors conv id held) :
    (q.merged conv id held change).state.shown.Perm
      (without conv id q.state.shown ++ if q.wants change then [change.item] else []) := by
  cases wants : q.wants change with
  | false =>
    rw [shown_merge_of_not_wants fits mirrors h.merges wants]
    simp [without]
  | true =>
    by_cases shown : q.Shows conv id
    · rw [shown_merge_of_shows fits mirrors h.merges wants shown]
      exact map_replace_perm h.nodup_idsOf_shown shown
    · rw [shown_merge_of_joins fits mirrors h.merges wants shown h.find h.fetched,
        without_eq_self shown]
      rfl

theorem filter_follow (hid : conv.idOf change.item = some id) :
    (follow conv collection change).filter q.accepts =
      without conv id (collection.filter q.accepts) ++
        if q.wants change then [change.item] else [] := by
  unfold follow wants
  rw [hid]
  dsimp only
  by_cases hr : change.kind = .removed
  · simp [hr, filter_without]
  · rw [if_neg hr, List.filter_append, filter_without]
    cases haccepts : q.accepts change.item <;> simp [hr, haccepts]

theorem Views.merged (h : q.Views conv collection) (fits : q.Fits)
    (mirrors : q.Mirrors conv id held) (hid : conv.idOf change.item = some id) :
    (q.merged conv id held change).Views conv (follow conv collection change) where
  toFollows := h.toFollows.merged fits
  shown := by
    rw [accepts_merge, filter_follow hid]
    refine (h.shown_merged fits mirrors).trans (List.Perm.append_right _ ?_)
    exact h.shown.filter _
  distinct := nodup_idsOf_follow h.distinct change

/-! ## The total -/

/-- Do the metadata report how many items are shown? -/
def Counts (q : Query) : Prop :=
  Fields.get? q.state.metadata "total" = some (Json.int q.state.shown.length)

theorem get?_adjustTotal {metadata : Fields} {n : Nat} {delta : Int}
    (total : Fields.get? metadata "total" = some (Json.int n)) (small : n < 0x8000000000000000)
    (low : -0x8000000000000000 ≤ n + delta) (high : n + delta < 0x8000000000000000) :
    Fields.get? (adjustTotal metadata delta) "total" = some (Json.int (max (n + delta) 0)) := by
  have htotal : total? metadata = some (n : Int) := by
    rw [total?, total, Option.bind_some]
    exact Json.int64?_int (by omega) (Int.ofNat_lt.mpr small)
  rw [adjustTotal_of_some htotal low high, Fields.get?_insert, if_pos rfl]

theorem length_without (distinct : (idsOf conv items).Nodup) (mem : id ∈ idsOf conv items) :
    (without conv id items).length + 1 = items.length := by
  have hperm : (items.map fun old => if conv.idOf old == some id then Json.null else old).Perm _ :=
    map_replace_perm distinct mem
  have hlength := hperm.length_eq
  rw [List.length_map, List.length_append, List.length_singleton] at hlength
  exact hlength.symm

theorem metadata_drop (find : q.descriptor.method = .find) :
    (q.drop conv id).state.metadata = conv.itemRemoved q.state.metadata := by
  simp only [drop, find, mapList, withMetadata]
  split <;> rfl

theorem metadata_replace : (q.replace conv id item).state.metadata = q.state.metadata := by
  unfold replace mapList
  split
  · rfl
  · split <;> rfl

theorem metadata_append (data : q.state.data = some (.list items)) :
    (q.append conv item).state.metadata = conv.itemAdded q.state.metadata := by
  unfold append
  rw [data]
  rfl

theorem Views.counts_merged (h : q.Views conv collection) (fits : q.Fits)
    (mirrors : q.Mirrors conv id held) (counter : conv.CountsTotal) (counts : q.Counts)
    (small : q.state.shown.length < 0x8000000000000000)
    (still : (q.merged conv id held change).state.shown.length < 0x8000000000000000) :
    (q.merged conv id held change).Counts := by
  have hlength : (q.merged conv id held change).state.shown.length = _ :=
    (h.shown_merged fits mirrors).length_eq
  unfold Counts at counts ⊢
  rw [hlength, List.length_append] at still ⊢
  cases wants : q.wants change with
  | false =>
    rw [if_neg Bool.false_ne_true, List.length_nil]
    by_cases shown : q.Shows conv id
    · have hone := length_without h.nodup_idsOf_shown shown
      rw [Query.merged, effect_eq_leaves.mpr ⟨h.merges, mirrors.mpr ⟨h.merges, shown⟩, wants⟩]
      show Fields.get? (q.drop conv id).state.metadata "total" = _
      rw [metadata_drop h.find, counter.removed,
        get?_adjustTotal counts small (by omega) (by omega)]
      congr 2
      omega
    · rw [merge_of_not_wants mirrors shown wants, without_eq_self shown]
      exact counts
  | true =>
    rw [wants, if_pos rfl, List.length_singleton] at still
    rw [if_pos rfl, List.length_singleton]
    by_cases shown : q.Shows conv id
    · have hone := length_without h.nodup_idsOf_shown shown
      rw [Query.merged, effect_eq_stays.mpr ⟨h.merges, mirrors.mpr ⟨h.merges, shown⟩, wants⟩]
      show Fields.get? (q.replace conv id change.item).state.metadata "total" = _
      rw [metadata_replace, hone]
      exact counts
    · have hheld : held = false := Bool.eq_false_iff.mpr fun hh => shown (mirrors.mp hh).2
      rw [Query.merged, effect_eq_joins.mpr ⟨h.merges, hheld, wants, h.find, h.fetched⟩]
      show Fields.get? (q.append conv change.item).state.metadata "total" = _
      rw [without_eq_self shown] at still ⊢
      rw [metadata_append (fits.eq_list h.find h.fetched), counter.added,
        get?_adjustTotal counts small (by omega) (by omega)]
      congr 2

end Query

/-! ## Runs of changes -/

open Collection

/-- Has a list followed the changes of a collection? Its total is right as well, provided
that it is `counted` and that the numbers on the way are those of a machine. -/
structure Query.Tracks (conv : Conventions) (counted : Prop) (q : Query)
    (collection : List Json) (changes : List Change) : Prop where
  views : q.Views conv (changes.foldl (follow conv) collection)
  counts : counted →
    (∀ seen, seen <+: changes →
      ((seen.foldl (follow conv) collection).filter q.accepts).length < 0x8000000000000000) →
    q.Counts

namespace Query.Tracks

variable {counted : Prop} {q : Query} {held : Bool} {changes : List Change}

theorem skip (h : q.Tracks conv counted collection changes)
    (hid : conv.idOf change.item = none) :
    q.Tracks conv counted collection (changes ++ [change]) where
  views := by
    rw [List.foldl_append, List.foldl_cons, List.foldl_nil, follow, hid]
    exact h.views
  counts := fun hc bound =>
    h.counts hc fun seen hseen => bound seen (hseen.trans (List.prefix_append _ _))

theorem merged (h : q.Tracks conv counted collection changes) (fits : q.Fits)
    (mirrors : q.Mirrors conv id held) (hid : conv.idOf change.item = some id)
    (counter : counted → conv.CountsTotal) :
    (q.merged conv id held change).Tracks conv counted collection (changes ++ [change]) where
  views := by
    rw [List.foldl_append, List.foldl_cons, List.foldl_nil]
    exact h.views.merged fits mirrors hid
  counts := by
    intro hc bound
    rw [accepts_merge] at bound
    have hafter : (q.merged conv id held change).Views conv _ := h.views.merged fits mirrors hid
    refine h.views.counts_merged fits mirrors (counter hc) (h.counts hc fun seen hseen =>
      bound seen (hseen.trans (List.prefix_append _ _))) ?_ ?_
    · rw [h.views.shown.length_eq]
      exact bound changes (List.prefix_append _ _)
    · have hall := bound (changes ++ [change]) List.prefix_rfl
      rw [List.foldl_append, List.foldl_cons, List.foldl_nil] at hall
      rw [hafter.shown.length_eq, accepts_merge]
      exact hall

end Query.Tracks

namespace Service

variable {s : Service} {query : QueryId} {q : Query} {counted : Prop}

/-- Is no change of a run late when its turn comes? -/
def isTimely (conv : Conventions) (s : Service) : List Change → Bool
  | [] => true
  | change :: changes =>
    (conv.idOf change.item).all (fun id => !s.isLate conv id change) &&
      isTimely conv (s.mergeAll conv [change]).service changes

/-- A list goes on following a collection when changes are merged in time. -/
theorem tracks_mergeAll {seen changes : List Change} (mirror : s.Mirror conv)
    (counter : counted → conv.CountsTotal) (timely : s.isTimely conv changes = true)
    (hq : s.queries.get? query = some q) (h : q.Tracks conv counted collection seen) :
    ∃ q', (s.mergeAll conv changes).service.queries.get? query = some q' ∧
      q'.Tracks conv counted collection (seen ++ changes) := by
  induction changes generalizing s q seen with
  | nil => exact ⟨q, hq, by rwa [List.append_nil]⟩
  | cons change changes ih =>
    rw [mergeAll_cons, List.append_cons]
    rw [isTimely, Bool.and_eq_true] at timely
    obtain ⟨intime, timely⟩ := timely
    cases hid : conv.idOf change.item with
    | none =>
      have hrejects : s.admits? conv change = none := by
        unfold admits?
        rw [hid]
      rw [mergeAll_singleton_of_rejects hrejects] at timely ⊢
      exact ih mirror timely hq (h.skip hid)
    | some id =>
      rw [hid, Option.all_some, Bool.not_eq_true'] at intime
      have hadmits : s.admits? conv change = some id :=
        admits?_eq_some.mpr ⟨hid, intime⟩
      rw [mergeAll_singleton_of_admits hadmits] at timely ⊢
      refine ih (mirror.mergeChange hid) timely ?_
        (h.merged (mirror.fits hq) (mirror.mirrors id hq) hid counter)
      rw [get?_queries_mergeChange, hq]
      rfl

end Service

end LiveQuery
