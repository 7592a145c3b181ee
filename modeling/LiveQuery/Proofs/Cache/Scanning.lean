import LiveQuery.Proofs.Cache.Mirror
import LiveQuery.Proofs.Service.Rejection

/-!
# Merging without the index

The index spares a service the search through its results: it says which queries hold the item of
a change, so that the items that they show need not be looked at. `Query.scanned` is what a change
means to a query if it does look at them and at nothing else. Where the index mirrors the results,
as it does in every run, the two agree change by change (`Run.merged_as_scanned`) and so batch by
batch (`Service.Mirror.scanned_mergeAll`).
-/

namespace LiveQuery

namespace Query

variable {conv : Conventions} {q : Query} {id : ItemId} {change : Change} {held : Bool}

/-- The query after a change of the item with the given id, read off its own result. In a list the
item is put wherever its id stands, or at the end, or is taken out; a single item with its id is
replaced or taken away. Queries that do not merge events, or have no result, stay as they are. -/
def scanned (conv : Conventions) (q : Query) (id : ItemId) (change : Change) : Query :=
  if q.merges then
    match q.state.data with
    | none => q
    | some (.item old) =>
      if conv.idOf old == some id then
        q.withData (if q.wants change then some (.item change.item) else none)
      else q
    | some (.list items) =>
      if items.any fun old => conv.idOf old == some id then
        if q.wants change then
          q.withData (some (.list
            (items.map fun old => if conv.idOf old == some id then change.item else old)))
        else
          (q.withData (some (.list
            (items.filter fun old => conv.idOf old != some id)))).withMetadata
              (conv.itemRemoved q.state.metadata)
      else if q.wants change then
        (q.withData (some (.list (items ++ [change.item])))).withMetadata
          (conv.itemAdded q.state.metadata)
      else q
  else q

def scannedAll (conv : Conventions) (q : Query) (changes : List Change) : Query :=
  changes.foldl (fun q change => ((conv.idOf change.item).map (q.scanned conv · change)).getD q) q

/-! ## One query -/

theorem shows_of_item {old : Json} (data : q.state.data = some (.item old)) :
    q.Shows conv id ↔ (conv.idOf old == some id) = true := by
  rw [shows_iff, shown_of_data _ data, beq_iff_eq]
  exact ⟨fun ⟨_, hmem, hid⟩ => List.mem_singleton.mp hmem ▸ hid,
    fun hid => ⟨old, List.mem_singleton_self old, hid⟩⟩

theorem shows_of_list {items : List Json} (data : q.state.data = some (.list items)) :
    q.Shows conv id ↔ (items.any fun old => conv.idOf old == some id) = true := by
  rw [shows_iff, shown_of_data _ data, List.any_eq_true]
  simp only [QueryData.all, beq_iff_eq]

theorem scanned_of_item {old : Json} (merges : q.merges = true)
    (data : q.state.data = some (.item old)) :
    q.scanned conv id change =
      if conv.idOf old == some id then
        q.withData (if q.wants change then some (.item change.item) else none)
      else q := by
  rw [scanned, if_pos merges, data]

theorem scanned_of_list {items : List Json} (merges : q.merges = true)
    (data : q.state.data = some (.list items)) :
    q.scanned conv id change =
      if items.any fun old => conv.idOf old == some id then
        if q.wants change then
          q.withData (some (.list
            (items.map fun old => if conv.idOf old == some id then change.item else old)))
        else
          (q.withData (some (.list
            (items.filter fun old => conv.idOf old != some id)))).withMetadata
              (conv.itemRemoved q.state.metadata)
      else if q.wants change then
        (q.withData (some (.list (items ++ [change.item])))).withMetadata
          (conv.itemAdded q.state.metadata)
      else q := by
  rw [scanned, if_pos merges, data]

theorem merged_of_item {old : Json} (fits : q.Fits) (mirrors : q.Mirrors conv id held)
    (merges : q.merges = true) (data : q.state.data = some (.item old)) :
    q.merged conv id held change = q.scanned conv id change := by
  have hget : q.descriptor.method = .get := fits _ data
  rw [scanned_of_item merges data]
  by_cases hshown : q.Shows conv id
  · have hheld : held = true := mirrors.mpr ⟨merges, hshown⟩
    rw [if_pos ((shows_of_item data).mp hshown)]
    cases hwants : q.wants change with
    | true =>
      rw [merged, effect_eq_stays.mpr ⟨merges, hheld, hwants⟩]
      simp only [merge, replace, hget, if_true]
    | false =>
      rw [merged, effect_eq_leaves.mpr ⟨merges, hheld, hwants⟩]
      simp only [merge, drop, hget, Bool.false_eq_true, if_false]
  · rw [if_neg (hshown ∘ (shows_of_item data).mpr)]
    refine merge_of_not_joins mirrors hshown fun hfind => ?_
    rw [hget] at hfind
    cases hfind.1

theorem merged_of_list {items : List Json} (fits : q.Fits) (mirrors : q.Mirrors conv id held)
    (merges : q.merges = true) (data : q.state.data = some (.list items)) :
    q.merged conv id held change = q.scanned conv id change := by
  have hfind : q.descriptor.method = .find := fits _ data
  rw [scanned_of_list merges data]
  by_cases hshown : q.Shows conv id
  · have hheld : held = true := mirrors.mpr ⟨merges, hshown⟩
    rw [if_pos ((shows_of_list data).mp hshown)]
    cases hwants : q.wants change with
    | true =>
      rw [merged, effect_eq_stays.mpr ⟨merges, hheld, hwants⟩]
      simp only [merge, replace, hfind, mapList, data, withData, if_true]
    | false =>
      rw [merged, effect_eq_leaves.mpr ⟨merges, hheld, hwants⟩]
      simp only [merge, drop, hfind, mapList, data, withData, withMetadata, Bool.false_eq_true,
        if_false]
  · rw [if_neg (hshown ∘ (shows_of_list data).mpr)]
    cases hwants : q.wants change with
    | true =>
      have hheld : held = false := Bool.eq_false_iff.mpr fun h => hshown (mirrors.mp h).2
      have hfetched : q.state.data.isSome = true := by rw [data]; rfl
      rw [merged, effect_eq_joins.mpr ⟨merges, hheld, hwants, hfind, hfetched⟩]
      simp only [merge, append, data, if_true]
    | false => exact merge_of_not_wants mirrors hshown hwants

/-- Whatever the query, its membership tells no more than its result. -/
theorem merged_eq_scanned (fits : q.Fits) (mirrors : q.Mirrors conv id held) :
    q.merged conv id held change = q.scanned conv id change := by
  cases hmerges : q.merges with
  | false =>
    rw [merged, effect_eq_unaffected hmerges, scanned, if_neg (Bool.eq_false_iff.mp hmerges)]
    rfl
  | true =>
    cases hdata : q.state.data with
    | none =>
      rw [merged_of_none mirrors hdata, scanned, if_pos hmerges, hdata]
    | some data =>
      cases data with
      | item old => exact merged_of_item fits mirrors hmerges hdata
      | list items => exact merged_of_list fits mirrors hmerges hdata

end Query

/-! ## All queries of a service -/

namespace Service.Mirror

variable {conv : Conventions} {s : Service} {id : ItemId} {change : Change}

theorem scanned_mergeChange (h : s.Mirror conv) (query : QueryId) :
    (s.mergeChange conv id change).queries.get? query =
      (s.queries.get? query).map (·.scanned conv id change) := by
  rw [get?_queries_mergeChange]
  refine Option.map_congr fun q hq => ?_
  exact Query.merged_eq_scanned (h.fits hq) (h.mirrors id hq)

/-- A batch does to the queries what its changes do one after the other, without those that are
rejected when their turn comes. -/
theorem scanned_mergeAll (h : s.Mirror conv) (changes : List Change) (query : QueryId) :
    (s.mergeAll conv changes).service.queries.get? query =
      (s.queries.get? query).map (·.scannedAll conv (s.sifted conv changes)) := by
  induction changes generalizing s with
  | nil => exact Option.map_id'.symm
  | cons change changes ih =>
    rw [mergeAll_cons, ih (h.mergeAll [change])]
    cases ha : s.admits? conv change with
    | none =>
      rw [mergeAll_singleton_of_rejects ha, sifted_cons_of_rejects (admits?_eq_none.mp ha)]
    | some id =>
      have hid : conv.idOf change.item = some id := (admits?_eq_some.mp ha).1
      rw [mergeAll_singleton_of_admits ha, sifted_cons_of_admits ha, h.scanned_mergeChange,
        Option.map_map]
      refine Option.map_congr fun q _ => ?_
      simp only [Function.comp_apply, Query.scannedAll, List.foldl_cons, hid, Option.map_some,
        Option.getD_some]

end Service.Mirror

variable {setup : Setup} {history : List Happening} {w : World} {id : ItemId}

/-- At any point of a batch that is merged in any state of a run, a change that is admitted under
an id does to every query of its service what the query's own result says, the index left aside. -/
theorem Run.merged_as_scanned (run : Run setup history w) (name : String) (changes : List Change)
    (change : Change)
    (admits : ((w.store.service name).mergeAll setup.conventions changes).service.admits?
      setup.conventions change = some id) (query : QueryId) :
    ((w.store.service name).mergeAll setup.conventions (changes ++ [change])).service.queries.get?
        query =
      (((w.store.service name).mergeAll setup.conventions changes).service.queries.get? query).map
        (·.scanned setup.conventions id change) := by
  have hmirror : (w.store.service name).Mirror setup.conventions := run.mirror name
  rw [Service.mergeAll_append, Service.mergeAll_singleton_of_admits admits]
  exact (hmirror.mergeAll changes).scanned_mergeChange query

namespace Notes

def gained : Change := ⟨.created, note 2 200 "idea"⟩

def lost : Change := ⟨.patched, note 1 300 "draft"⟩

/-- The notes in the middle of a batch. -/
def joined : Service := ((opened.store.service "notes").mergeAll .standard [gained]).service

/-- In one batch the ideas gain a note and lose another, as their own result says. -/
theorem first_note_leaves_second :
    joined.admits? .standard lost = some (.int 1) ∧
      ∃ q, joined.queries.get? ideas.id = some q ∧
        ((opened.store.service "notes").mergeAll .standard
          ([gained] ++ [lost])).service.queries.get? ideas.id =
            some (q.scanned .standard (.int 1) lost) ∧
        q.state.items.map Item.id? = [some (.int 1), some (.int 2)] ∧
        (q.scanned .standard (.int 1) lost).state.items.map Item.id? = [some (.int 2)] := by
  have hadmits : joined.admits? .standard lost = some (.int 1) := by decide +kernel
  have hshown : (joined.queries.get? ideas.id).any (fun q =>
      q.state.items.map Item.id? = [some (.int 1), some (.int 2)] ∧
        (q.scanned .standard (.int 1) lost).state.items.map Item.id? = [some (.int 2)]) =
      true := by decide +kernel
  obtain ⟨q, hq, hitems⟩ := (Option.any_eq_true _ _).mp hshown
  obtain ⟨hbefore, hafter⟩ := of_decide_eq_true hitems
  obtain ⟨history, hrun⟩ := run_opened
  have hscanned := Run.merged_as_scanned hrun "notes" [gained] lost hadmits ideas.id
  rw [show ((opened.store.service "notes").mergeAll .standard [gained]).service.queries.get?
    ideas.id = some q from hq, Option.map_some] at hscanned
  exact ⟨hadmits, q, hq, hscanned, hbefore, hafter⟩

end Notes

end LiveQuery
