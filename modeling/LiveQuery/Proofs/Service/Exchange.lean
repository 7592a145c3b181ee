import LiveQuery.Proofs.Service.Eviction
import LiveQuery.Proofs.Service.View

/-!
# Changes of two items in either order

A change goes by what is known of its own id: the cached entity, the members under the id and the
place of the item in each result. None of this is touched by a change of another item
(`Service.isLate_mergeChange_of_ne`, `Query.effect_merge`, `Service.evicts_mergeChange_of_ne`), so
changes of two items have the same effects in either order. On a list an effect works item by item,
adds to the end and counts (`Query.merge_of_list`). The first commutes for different ids and the
second up to order; the third commutes unless it is stopped at zero, which it is not where the count
is at least the number of items (`Effect.count_comm`).
-/

namespace LiveQuery

variable {conv : Conventions} {i j k : ItemId} {a b : Change}

/-! ## Counting -/

theorem Fields.insert_insert (fs : Fields) (key : String) (first second : Json) :
    (fs.insert key first).insert key second = fs.insert key second := by
  induction fs with
  | nil => simp [Fields.insert]
  | cons member fs ih =>
    obtain ⟨name, value⟩ := member
    by_cases hname : name = key
    · simp [Fields.insert, hname]
    · by_cases hlt : key < name
      · simp [Fields.insert, hname, hlt]
      · simp [Fields.insert, hname, hlt, ih]

variable {metadata : Fields} {total delta : Int}

theorem adjustTotal_of_none (h : total? metadata = none) (delta : Int) :
    adjustTotal metadata delta = metadata := by
  rw [total?] at h
  rw [adjustTotal, h]

theorem total?_adjustTotal (h : total? metadata = some total)
    (low : -0x8000000000000000 ≤ total + delta) (high : total + delta < 0x8000000000000000) :
    total? (adjustTotal metadata delta) = some (max (total + delta) 0) := by
  rw [adjustTotal_of_some h low high, total?, Fields.get?_insert, if_pos rfl, Option.bind_some]
  exact Json.int64?_int (by omega) (by omega)

/-- One up and one down cancel each other in either order, unless the total is stopped at zero or
goes past what 64 bits hold. -/
theorem adjustTotal_up_down
    (counts : ∀ total, total? metadata = some total → 1 ≤ total ∧ total + 1 < 0x8000000000000000) :
    adjustTotal (adjustTotal metadata 1) (-1) = adjustTotal (adjustTotal metadata (-1)) 1 := by
  cases htotal : total? metadata with
  | none => rw [adjustTotal_of_none htotal, adjustTotal_of_none htotal, adjustTotal_of_none htotal]
  | some total =>
    obtain ⟨hlow, hhigh⟩ := counts total htotal
    have hup : total? (adjustTotal metadata 1) = some (total + 1) := by
      rw [total?_adjustTotal htotal (by omega) hhigh, Int.max_eq_left (by omega)]
    have hdown : total? (adjustTotal metadata (-1)) = some (total + -1) := by
      rw [total?_adjustTotal htotal (by omega) (by omega), Int.max_eq_left (by omega)]
    rw [adjustTotal_of_some hup (by omega) (by omega),
      adjustTotal_of_some hdown (by omega) (by omega), adjustTotal_of_some htotal (by omega) hhigh,
      adjustTotal_of_some htotal (by omega) (by omega), Fields.insert_insert,
      Fields.insert_insert]
    congr 2
    omega

/-! ## Effects on a list -/

namespace Effect

/-- What an effect makes of an item of a list. -/
def rework (conv : Conventions) (id : ItemId) (item : Json) : Effect → Json → Option Json
  | .leaves, old => if conv.idOf old = some id then none else some old
  | .stays, old => if conv.idOf old = some id then some item else some old
  | .joins, old | .unaffected, old => some old

def arrivals (item : Json) : Effect → List Json
  | .joins => [item]
  | .leaves | .stays | .unaffected => []

def count (conv : Conventions) : Effect → Fields → Fields
  | .leaves => conv.itemRemoved
  | .joins => conv.itemAdded
  | .stays | .unaffected => id

variable {e : Effect} {item old : Json} {items : List Json}

theorem rework_of_ne (h : conv.idOf old ≠ some i) : e.rework conv i item old = some old := by
  cases e with
  | leaves | stays => exact if_neg h
  | joins | unaffected => rfl

theorem idOf_rework (named : conv.idOf item = some i) {new : Json}
    (h : e.rework conv i item old = some new) : conv.idOf new = conv.idOf old := by
  cases e with
  | leaves =>
    simp only [rework] at h
    split at h
    · cases h
    · rw [Option.some.inj h]
  | stays =>
    simp only [rework] at h
    split at h
    · next hold => rw [← Option.some.inj h, named, hold]
    · rw [Option.some.inj h]
  | joins | unaffected =>
    cases h
    rfl

theorem rework_bind_of_ne {f : Effect} {other : Json} (named : conv.idOf item = some i)
    (h : conv.idOf old ≠ some j) :
    (e.rework conv i item old).bind (f.rework conv j other) = e.rework conv i item old := by
  cases hnew : e.rework conv i item old with
  | none => rfl
  | some new => exact rework_of_ne (idOf_rework named hnew ▸ h)

theorem rework_comm {f : Effect} {other : Json} (distinct : i ≠ j)
    (first : conv.idOf item = some i) (second : conv.idOf other = some j) (old : Json) :
    (e.rework conv i item old).bind (f.rework conv j other) =
      (f.rework conv j other old).bind (e.rework conv i item) := by
  by_cases h : conv.idOf old = some j
  · have hne : conv.idOf old ≠ some i := fun hi => distinct (Option.some.inj (hi.symm.trans h))
    rw [rework_bind_of_ne second hne, rework_of_ne hne, Option.bind_some]
  · rw [rework_bind_of_ne first h, rework_of_ne h, Option.bind_some]

theorem filterMap_arrivals {f : Effect} {other : Json} (distinct : i ≠ j)
    (named : conv.idOf item = some i) :
    (e.arrivals item).filterMap (f.rework conv j other) = e.arrivals item := by
  cases e with
  | joins =>
    have hne : conv.idOf item ≠ some j := fun h => distinct (Option.some.inj (named.symm.trans h))
    rw [arrivals, List.filterMap_cons_some (rework_of_ne hne), List.filterMap_nil]
  | leaves | stays | unaffected => rfl

theorem count_comm {f : Effect} (counter : conv.CountsTotal)
    (counts : e = .leaves ∧ f = .joins ∨ e = .joins ∧ f = .leaves →
      ∀ total, total? metadata = some total → 1 ≤ total ∧ total + 1 < 0x8000000000000000) :
    f.count conv (e.count conv metadata) = e.count conv (f.count conv metadata) := by
  cases e with
  | stays | unaffected => rfl
  | leaves =>
    cases f with
    | leaves | stays | unaffected => rfl
    | joins =>
      simp only [count, counter.added, counter.removed]
      exact (adjustTotal_up_down (counts (Or.inl ⟨rfl, rfl⟩))).symm
  | joins =>
    cases f with
    | joins | stays | unaffected => rfl
    | leaves =>
      simp only [count, counter.added, counter.removed]
      exact adjustTotal_up_down (counts (Or.inr ⟨rfl, rfl⟩))

end Effect

namespace Query

variable {q : Query} {e f : Effect} {item other : Json} {items : List Json} {held holds : Bool}

def withList (q : Query) (items : List Json) (metadata : Fields) : Query :=
  { q with state := { q.state with data := some (.list items), metadata } }

theorem merge_of_list (find : q.descriptor.method = .find)
    (data : q.state.data = some (.list items)) :
    q.merge conv i item e =
      q.withList (items.filterMap (e.rework conv i item) ++ e.arrivals item)
        (e.count conv q.state.metadata) := by
  cases e with
  | leaves =>
    have hitems : items.filterMap (Effect.leaves.rework conv i item) =
        items.filter fun old => conv.idOf old != some i := by
      rw [← List.filterMap_eq_filter]
      refine List.filterMap_congr fun old _ => ?_
      by_cases hold : conv.idOf old = some i <;> simp [Effect.rework, Option.guard, hold]
    simp only [merge, drop, find, mapList, data, withMetadata, hitems, Effect.arrivals,
      List.append_nil]
    rfl
  | stays =>
    have hitems : items.filterMap (Effect.stays.rework conv i item) =
        items.map fun old => if conv.idOf old == some i then item else old := by
      rw [← List.filterMap_eq_map]
      refine List.filterMap_congr fun old _ => ?_
      by_cases hold : conv.idOf old = some i <;> simp [Effect.rework, hold]
    simp only [merge, replace, find, mapList, data, hitems, Effect.arrivals, List.append_nil]
    rfl
  | joins =>
    have hitems : items.filterMap (Effect.joins.rework conv i item) = items :=
      List.filterMap_some
    simp only [merge, append, data, hitems]
    rfl
  | unaffected =>
    have hitems : items.filterMap (Effect.unaffected.rework conv i item) = items :=
      List.filterMap_some
    simp only [merge, hitems, Effect.arrivals, List.append_nil]
    rw [withList, ← data]
    rfl

theorem isSome_merge_of_find (find : q.descriptor.method = .find) :
    (q.merge conv i item e).state.data.isSome = q.state.data.isSome := by
  cases e with
  | leaves | stays =>
    simp only [merge, drop, replace, find, mapList, withMetadata]
    split <;> simp_all
  | joins =>
    simp only [merge, append]
    split
    · next hdata => rw [hdata]; rfl
    · rfl
  | unaffected => rfl

theorem effect_merge : (q.merge conv i item e).effect held b = q.effect held b := by
  unfold effect
  rw [merges_merge, accepts_merge, descriptor_merge]
  by_cases find : q.descriptor.method = .find
  · rw [isSome_merge_of_find find]
  · have hget : (q.descriptor.method == Method.find) = false := beq_eq_false_iff_ne.mpr find
    simp only [hget, Bool.and_false, Bool.false_and]

theorem merge_merge_of_list (find : q.descriptor.method = .find)
    (data : q.state.data = some (.list items)) (distinct : i ≠ j)
    (named : conv.idOf item = some i) :
    (q.merge conv i item e).merge conv j other f =
      q.withList ((items.filterMap (e.rework conv i item)).filterMap (f.rework conv j other) ++
          (e.arrivals item ++ f.arrivals other))
        (f.count conv (e.count conv q.state.metadata)) := by
  rw [merge_of_list find data, merge_of_list (q := q.withList _ _) find rfl, List.filterMap_append,
    Effect.filterMap_arrivals distinct named, List.append_assoc]
  rfl

variable {hi hj : Bool}

theorem merged_comm_of_get (fits : q.Fits) (first : q.Mirrors conv i hi)
    (second : q.Mirrors conv j hj) (distinct : i ≠ j) (get : q.descriptor.method = .get) :
    (q.merged conv i hi a).merged conv j hj b = (q.merged conv j hj b).merged conv i hi a := by
  have hnone : ∀ {id held change}, q.Mirrors conv id held → ¬q.Shows conv id →
      q.effect held change = .unaffected := by
    intro id held change mirrors shown
    refine (effect_of_not_shows mirrors shown).resolve_left fun he => ?_
    have hfind := (effect_eq_joins.mp he).2.2.2.1
    rw [get] at hfind
    cases hfind
  unfold Query.merged
  rw [effect_merge, effect_merge]
  by_cases hshows : q.Shows conv i
  · have hother : ¬q.Shows conv j := by
      obtain ⟨item, hdata⟩ := fits.eq_item get (data_isSome_of_shows hshows)
      rw [shows_iff, shown_of_data _ hdata] at hshows ⊢
      rintro ⟨y, hy, hyj⟩
      obtain ⟨x, hx, hxi⟩ := hshows
      rw [List.mem_singleton.mp hx] at hxi
      rw [List.mem_singleton.mp hy, hxi] at hyj
      exact distinct (Option.some.inj hyj)
    rw [hnone second hother]
    rfl
  · rw [hnone first hshows]
    rfl

/-- Two changes of a list differ by their order only if both items join it, and then only by the
order of these. -/
theorem merged_comm_of_find (fits : q.Fits) (first : q.Mirrors conv i hi)
    (second : q.Mirrors conv j hj) (distinct : i ≠ j) (find : q.descriptor.method = .find)
    (named : conv.idOf a.item = some i) (named' : conv.idOf b.item = some j) :
    ((q.merged conv i hi a).merged conv j hj b).state.data =
        ((q.merged conv j hj b).merged conv i hi a).state.data ∨
      ∃ items, q.state.data = some (.list items) ∧ ¬q.Shows conv i ∧ ¬q.Shows conv j ∧
        ((q.merged conv i hi a).merged conv j hj b).state.data =
          some (.list (items ++ [a.item, b.item])) ∧
        ((q.merged conv j hj b).merged conv i hi a).state.data =
          some (.list (items ++ [b.item, a.item])) := by
  cases hdata : q.state.data with
  | none =>
    left
    rw [merged_of_none first hdata, merged_of_none second hdata, merged_of_none first hdata]
  | some data =>
    have hlist := fits.eq_list find (by rw [hdata]; rfl)
    unfold Query.merged
    rw [effect_merge, effect_merge, merge_merge_of_list find hlist distinct named,
      merge_merge_of_list find hlist distinct.symm named']
    have hkept : (q.state.shown.filterMap ((q.effect hi a).rework conv i a.item)).filterMap
        ((q.effect hj b).rework conv j b.item) =
        (q.state.shown.filterMap ((q.effect hj b).rework conv j b.item)).filterMap
          ((q.effect hi a).rework conv i a.item) := by
      rw [List.filterMap_filterMap, List.filterMap_filterMap]
      exact List.filterMap_congr fun old _ => Effect.rework_comm distinct named named' old
    by_cases hboth : q.effect hi a = .joins ∧ q.effect hj b = .joins
    · obtain ⟨hjoins, hjoins'⟩ := hboth
      have hnew : ∀ {id held change}, q.Mirrors conv id held → q.effect held change = .joins →
          ¬q.Shows conv id := by
        intro id held change mirrors he hshows
        obtain ⟨hmerges, hheld, -⟩ := effect_eq_joins.mp he
        rw [mirrors.mpr ⟨hmerges, hshows⟩] at hheld
        cases hheld
      have hitems : ∀ id item, q.state.shown.filterMap (Effect.joins.rework conv id item) =
          q.state.shown := fun id item => List.filterMap_some
      right
      refine ⟨q.state.shown, hdata.symm.trans hlist, hnew first hjoins, hnew second hjoins', ?_, ?_⟩
      · rw [hjoins, hjoins', hitems, hitems]
        rfl
      · rw [hjoins, hjoins', hitems, hitems]
        rfl
    · have harrivals : (q.effect hi a).arrivals a.item ++ (q.effect hj b).arrivals b.item =
          (q.effect hj b).arrivals b.item ++ (q.effect hi a).arrivals a.item := by
        cases he : q.effect hi a with
        | joins =>
          cases hf : q.effect hj b with
          | joins => exact absurd ⟨he, hf⟩ hboth
          | leaves | stays | unaffected => rfl
        | leaves | stays | unaffected => exact (List.append_nil _).symm
      left
      rw [hkept, harrivals]
      rfl

theorem metadata_merged_comm (fits : q.Fits) (first : q.Mirrors conv i hi)
    (second : q.Mirrors conv j hj) (distinct : i ≠ j) (find : q.descriptor.method = .find)
    (named : conv.idOf a.item = some i) (named' : conv.idOf b.item = some j)
    (counter : conv.CountsTotal)
    (counts : ∀ total, total? q.state.metadata = some total →
      q.state.shown.length ≤ total ∧ total + 1 < 0x8000000000000000) :
    ((q.merged conv i hi a).merged conv j hj b).state.metadata =
      ((q.merged conv j hj b).merged conv i hi a).state.metadata := by
  cases hdata : q.state.data with
  | none => rw [merged_of_none first hdata, merged_of_none second hdata, merged_of_none first hdata]
  | some data =>
    have hlist := fits.eq_list find (by rw [hdata]; rfl)
    have hsome : ∀ {id held change}, q.Mirrors conv id held → q.effect held change = .leaves →
        1 ≤ q.state.shown.length := by
      intro id held change mirrors he
      obtain ⟨item, hmem, -⟩ := shows_iff.mp (mirrors.mp (effect_eq_leaves.mp he).2.1).2
      exact List.length_pos_of_mem hmem
    unfold Query.merged
    rw [effect_merge, effect_merge, merge_merge_of_list find hlist distinct named,
      merge_merge_of_list find hlist distinct.symm named']
    refine Effect.count_comm counter ?_
    rintro hleaves total htotal
    obtain ⟨hlow, hhigh⟩ := counts total htotal
    have hshown : 1 ≤ q.state.shown.length := by
      rcases hleaves with ⟨he, -⟩ | ⟨-, he⟩
      · exact hsome first he
      · exact hsome second he
    exact ⟨by omega, hhigh⟩

theorem Mirrors.merged_of_ne (second : q.Mirrors conv j hj) (fits : q.Fits)
    (first : q.Mirrors conv i hi) (distinct : i ≠ j) (named : conv.idOf a.item = some i) :
    (q.merged conv i hi a).Mirrors conv j hj := by
  rw [Mirrors, merges_merge, shows_merged_of_ne fits first named distinct.symm]
  exact second

theorem shows_merged_merged (fits : q.Fits) (first : q.Mirrors conv i hi)
    (second : q.Mirrors conv j hj) (distinct : i ≠ j) (named : conv.idOf a.item = some i)
    (named' : conv.idOf b.item = some j) :
    ((q.merged conv i hi a).merged conv j hj b).Shows conv j ↔
      (q.merged conv j hj b).Shows conv j := by
  cases merges : q.merges with
  | false =>
    have hsame : q.merged conv i hi a = q := by rw [Query.merged, effect_eq_unaffected merges]; rfl
    rw [hsame]
  | true =>
    rw [shows_merged_self (fits.merged first) (second.merged_of_ne fits first distinct named) named'
        (by rw [merges_merge, merges]),
      shows_merged_self fits second named' merges, wants, accepts_merge, descriptor_merge,
      shows_merged_of_ne fits first named distinct.symm]
    refine and_congr_right fun _ => or_congr_right (and_congr_right fun find => ?_)
    rw [isSome_merge_of_find find]

/-- What two queries have in common that have come of one query by the same two changes, in one
order and in the other. -/
structure Exchanges (conv : Conventions) (a b : Change) (q p p' : Query) : Prop where
  get : q.descriptor.method = .get → p = p'
  /-- The order shows only where both items have joined. -/
  find : q.descriptor.method = .find → p.state.data = p'.state.data ∨
    ∃ items, q.state.data = some (.list items) ∧
      (∀ old ∈ items, conv.idOf old ≠ conv.idOf a.item ∧ conv.idOf old ≠ conv.idOf b.item) ∧
      p.state.data = some (.list (items ++ [a.item, b.item])) ∧
      p'.state.data = some (.list (items ++ [b.item, a.item]))
  /-- The total is not stopped at zero if it has been at least the number of items. -/
  metadata : conv.CountsTotal →
    (∀ total, total? q.state.metadata = some total →
      q.state.shown.length ≤ total ∧ total + 1 < 0x8000000000000000) →
    p.state.metadata = p'.state.metadata

theorem exchanges_self (q p : Query) : Exchanges conv a b q p p where
  get := fun _ => rfl
  find := fun _ => Or.inl rfl
  metadata := fun _ _ => rfl

theorem exchanges_merged (fits : q.Fits) (first : q.Mirrors conv i hi)
    (second : q.Mirrors conv j hj) (distinct : i ≠ j)
    (named : conv.idOf a.item = some i) (named' : conv.idOf b.item = some j) :
    Exchanges conv a b q ((q.merged conv i hi a).merged conv j hj b)
      ((q.merged conv j hj b).merged conv i hi a) where
  get := merged_comm_of_get fits first second distinct
  find := by
    intro find
    rcases merged_comm_of_find fits first second distinct find named named' with
      hsame | ⟨items, hdata, hi, hj, hab, hba⟩
    · exact Or.inl hsame
    · refine Or.inr ⟨items, hdata, fun old hold => ?_, hab, hba⟩
      rw [shows_iff, shown_of_data _ hdata] at hi hj
      rw [named, named']
      exact ⟨fun hid => hi ⟨old, hold, hid⟩, fun hid => hj ⟨old, hold, hid⟩⟩
  metadata := by
    intro counter counts
    cases hmethod : q.descriptor.method with
    | get => rw [merged_comm_of_get fits first second distinct hmethod]
    | find =>
      exact metadata_merged_comm fits first second distinct hmethod named named' counter counts

end Query

/-! ## Two changes of a service -/

/-- Two tables in which two changes have been made agree, if each change bears on its own key
alone and does there what it would do without the other. -/
theorem Table.get?_exchange {κ α : Type} [DecidableEq κ] {i j : κ}
    {t first second both both' : Table κ α} (distinct : i ≠ j)
    (own : both.get? j = second.get? j) (own' : both'.get? i = first.get? i)
    (other : ∀ k, j ≠ k → both.get? k = first.get? k)
    (other' : ∀ k, i ≠ k → both'.get? k = second.get? k)
    (first_of_ne : ∀ k, i ≠ k → first.get? k = t.get? k)
    (second_of_ne : ∀ k, j ≠ k → second.get? k = t.get? k) (k : κ) :
    both.get? k = both'.get? k := by
  by_cases hj : j = k
  · subst hj
    rw [own, other' j distinct]
  · rw [other k hj]
    by_cases hi : i = k
    · subst hi
      rw [own']
    · rw [other' k hi, first_of_ne k hi, second_of_ne k hj]

theorem Index.get?_set (index : Index) (id : ItemId) (queries : List QueryId) (k : ItemId) :
    (index.set id queries).get? k =
      if id = k then if queries = [] then none else some queries else index.get? k := by
  unfold Index.set
  split
  · next h => rw [Table.get?_erase, if_pos (List.isEmpty_iff.mp h)]
  · next h => rw [Table.get?_insert, if_neg fun hnil => h (List.isEmpty_iff.mpr hnil)]

namespace Service

variable {s : Service} {x : QueryId} {q : Query}

theorem holders_mergeChange_of_ne (distinct : i ≠ j) :
    (s.mergeChange conv i a).index.holders j = s.index.holders j := by
  rw [holders_mergeChange, if_neg distinct]

theorem isLate_mergeChange_of_ne (distinct : i ≠ j) :
    (s.mergeChange conv i a).isLate conv j b = s.isLate conv j b := by
  unfold isLate
  rw [get?_entities_mergeChange, if_neg distinct]

theorem admits?_mergeChange_of_ne (distinct : i ≠ j) (named : conv.idOf b.item = some j) :
    (s.mergeChange conv i a).admits? conv b = s.admits? conv b := by
  unfold admits?
  rw [named]
  dsimp only
  rw [isLate_mergeChange_of_ne distinct]

theorem affected_mergeChange_of_ne (distinct : i ≠ j) (effects : List Effect) :
    (s.mergeChange conv i a).affected j b effects = s.affected j b effects := by
  unfold affected
  rw [queries_mergeChange]
  show ((s.queries.entries.map _).filter _).map Prod.fst = _
  rw [List.filter_map, List.map_map]
  refine congrArg _ (List.filter_congr fun e _ => ?_)
  show decide (Query.effect _ (decide (_ ∈ (s.mergeChange conv i a).index.holders j)) b ∈ effects) =
    _
  rw [holders_mergeChange_of_ne distinct, Query.effect_merge]
  rfl

theorem get?_queries_mergeChange_mergeChange (distinct : i ≠ j) :
    ((s.mergeChange conv i a).mergeChange conv j b).queries.get? x =
      (s.queries.get? x).map fun q =>
        (q.merged conv i (x ∈ s.index.holders i) a).merged conv j (x ∈ s.index.holders j) b := by
  rw [get?_queries_mergeChange, get?_queries_mergeChange, Option.map_map]
  refine congrArg (Option.map · _) (funext fun q => ?_)
  show Query.merge _ _ _ _
    (Query.effect _ (decide (x ∈ (s.mergeChange conv i a).index.holders j)) b) = _
  rw [holders_mergeChange_of_ne distinct]
  rfl

theorem index_mergeChange : (s.mergeChange conv i a).index =
    s.index.set i ((s.index.holders i).filter (· ∉ s.affected i a [.leaves]) ++
      s.affected i a [.joins]) :=
  rfl

theorem get?_index_mergeChange_of_ne (distinct : i ≠ k) :
    (s.mergeChange conv i a).index.get? k = s.index.get? k := by
  rw [index_mergeChange, Index.get?_set, if_neg distinct]

theorem get?_index_mergeChange_mergeChange (distinct : i ≠ j) :
    ((s.mergeChange conv i a).mergeChange conv j b).index.get? j =
      (s.mergeChange conv j b).index.get? j := by
  rw [index_mergeChange, index_mergeChange (i := j), Index.get?_set, Index.get?_set,
    holders_mergeChange_of_ne distinct, affected_mergeChange_of_ne distinct,
    affected_mergeChange_of_ne distinct, if_pos rfl, if_pos rfl]

theorem Mirror.evicts_mergeChange_of_ne (h : s.Mirror conv) (distinct : i ≠ j)
    (named : conv.idOf a.item = some i) (named' : conv.idOf b.item = some j) :
    (s.mergeChange conv i a).evicts conv j b = s.evicts conv j b := by
  have hshown : shownByAny conv ((s.mergeChange conv i a).mergeChange conv j b).queries j =
      shownByAny conv (s.mergeChange conv j b).queries j := by
    rw [Bool.eq_iff_iff, shownByAny_eq_true, shownByAny_eq_true]
    refine exists_congr fun x => ?_
    rw [get?_queries_mergeChange_mergeChange distinct, get?_queries_mergeChange]
    cases hq : s.queries.get? x with
    | none => simp
    | some q =>
      simp only [Option.map_some, Option.some.injEq, exists_eq_left']
      exact Query.shows_merged_merged (h.fits hq) (h.mirrors i hq) (h.mirrors j hq) distinct named
        named'
  have hholders : ((s.mergeChange conv i a).mergeChange conv j b).index.holders j =
      (s.mergeChange conv j b).index.holders j :=
    congrArg (Option.getD · []) (get?_index_mergeChange_mergeChange distinct)
  have hcontains : (s.mergeChange conv i a).index.contains j = s.index.contains j :=
    congrArg Option.isSome (get?_index_mergeChange_of_ne distinct)
  rw [evicts, evicts, hshown, hholders, hcontains]

theorem Mirror.get?_entities_mergeChange_mergeChange (h : s.Mirror conv) (distinct : i ≠ j)
    (named : conv.idOf a.item = some i) (named' : conv.idOf b.item = some j) :
    ((s.mergeChange conv i a).mergeChange conv j b).entities.get? j =
      (s.mergeChange conv j b).entities.get? j := by
  rw [get?_entities_mergeChange, if_pos rfl, h.evicts_mergeChange_of_ne distinct named named',
    get?_entities_mergeChange, if_pos rfl]

theorem get?_entities_mergeChange_of_ne (distinct : i ≠ k) :
    (s.mergeChange conv i a).entities.get? k = s.entities.get? k := by
  rw [get?_entities_mergeChange, if_neg distinct]

theorem Mirror.entities_comm (h : s.Mirror conv) (distinct : i ≠ j)
    (named : conv.idOf a.item = some i) (named' : conv.idOf b.item = some j) (k : ItemId) :
    ((s.mergeChange conv i a).mergeChange conv j b).entities.get? k =
      ((s.mergeChange conv j b).mergeChange conv i a).entities.get? k :=
  Table.get?_exchange distinct
    (h.get?_entities_mergeChange_mergeChange distinct named named')
    (h.get?_entities_mergeChange_mergeChange distinct.symm named' named)
    (fun _ hk => get?_entities_mergeChange_of_ne hk)
    (fun _ hk => get?_entities_mergeChange_of_ne hk)
    (fun _ hk => get?_entities_mergeChange_of_ne hk)
    (fun _ hk => get?_entities_mergeChange_of_ne hk) k

theorem index_comm (distinct : i ≠ j) (k : ItemId) :
    ((s.mergeChange conv i a).mergeChange conv j b).index.get? k =
      ((s.mergeChange conv j b).mergeChange conv i a).index.get? k :=
  Table.get?_exchange distinct (get?_index_mergeChange_mergeChange distinct)
    (get?_index_mergeChange_mergeChange distinct.symm)
    (fun _ hk => get?_index_mergeChange_of_ne hk) (fun _ hk => get?_index_mergeChange_of_ne hk)
    (fun _ hk => get?_index_mergeChange_of_ne hk) (fun _ hk => get?_index_mergeChange_of_ne hk) k

/-! ## Which queries are touched -/

theorem mem_touched_foldl_step (changes : List Change) (m : Merged) :
    x ∈ (changes.foldl (Merged.step conv) m).touched ↔
      x ∈ m.touched ∨ x ∈ (m.service.mergeAll conv changes).touched := by
  unfold mergeAll
  induction changes generalizing m with
  | nil => simp
  | cons change changes ih =>
    rw [List.foldl_cons, List.foldl_cons, ih, ih (Merged.step conv _ change)]
    cases ha : m.service.admits? conv change with
    | none =>
      rw [step_of_rejects ha, step_of_rejects (by exact ha)]
      simp
    | some id =>
      simp only [Merged.step, ha, List.mem_append, List.mem_filter, decide_eq_true_eq,
        List.not_mem_nil, not_false_eq_true, and_true, false_or]
      by_cases hx : x ∈ m.touched <;> simp [hx]

theorem mem_touched_pair : x ∈ (s.mergeAll conv [a, b]).touched ↔
    x ∈ (s.mergeAll conv [a]).touched ∨
      x ∈ ((s.mergeAll conv [a]).service.mergeAll conv [b]).touched :=
  mem_touched_foldl_step [b] (s.mergeAll conv [a])

theorem mem_touched_singleton : x ∈ (s.mergeAll conv [a]).touched ↔
    ∃ id, s.admits? conv a = some id ∧ x ∈ s.affected id a [.leaves, .stays, .joins] := by
  unfold mergeAll
  rw [List.foldl_cons, List.foldl_nil]
  cases ha : s.admits? conv a with
  | none => simp [Merged.step, ha]
  | some id => simp [Merged.step, ha]

theorem admits?_mergeAll_of_ne (distinct : i ≠ j) (named : conv.idOf a.item = some i)
    (named' : conv.idOf b.item = some j) :
    (s.mergeAll conv [a]).service.admits? conv b = s.admits? conv b := by
  cases ha : s.admits? conv a with
  | none => rw [mergeAll_singleton_of_rejects ha]
  | some id =>
    obtain rfl := Option.some.inj ((admits?_eq_some.mp ha).1.symm.trans named)
    rw [mergeAll_singleton_of_admits ha, admits?_mergeChange_of_ne distinct named']

theorem mem_touched_mergeAll_of_ne (distinct : i ≠ j) (named : conv.idOf a.item = some i)
    (named' : conv.idOf b.item = some j) :
    x ∈ ((s.mergeAll conv [a]).service.mergeAll conv [b]).touched ↔
      x ∈ (s.mergeAll conv [b]).touched := by
  rw [mem_touched_singleton, mem_touched_singleton, admits?_mergeAll_of_ne distinct named named']
  refine exists_congr fun id => and_congr_right fun hb => ?_
  obtain rfl := Option.some.inj ((admits?_eq_some.mp hb).1.symm.trans named')
  cases ha : s.admits? conv a with
  | none => rw [mergeAll_singleton_of_rejects ha]
  | some id =>
    obtain rfl := Option.some.inj ((admits?_eq_some.mp ha).1.symm.trans named)
    rw [mergeAll_singleton_of_admits ha, affected_mergeChange_of_ne distinct]

theorem touched_comm (distinct : i ≠ j) (named : conv.idOf a.item = some i)
    (named' : conv.idOf b.item = some j) :
    x ∈ (s.mergeAll conv [a, b]).touched ↔ x ∈ (s.mergeAll conv [b, a]).touched := by
  rw [mem_touched_pair, mem_touched_pair, mem_touched_mergeAll_of_ne distinct named named',
    mem_touched_mergeAll_of_ne distinct.symm named' named, or_comm]

/-! ## Two changes in either order -/

theorem mergeAll_pair : (s.mergeAll conv [a, b]).service =
    ((s.mergeAll conv [a]).service.mergeAll conv [b]).service :=
  mergeAll_cons a [b]

theorem mergeAll_comm_of_rejects (distinct : i ≠ j) (named : conv.idOf a.item = some i)
    (named' : conv.idOf b.item = some j) (rejects : s.admits? conv a = none) :
    (s.mergeAll conv [a, b]).service = (s.mergeAll conv [b, a]).service := by
  have hlater : (s.mergeAll conv [b]).service.admits? conv a = none := by
    rw [admits?_mergeAll_of_ne distinct.symm named' named, rejects]
  rw [mergeAll_pair, mergeAll_pair, mergeAll_singleton_of_rejects rejects,
    mergeAll_singleton_of_rejects hlater]

theorem mergeAll_pair_of_admits (distinct : i ≠ j) (named' : conv.idOf b.item = some j)
    (admits : s.admits? conv a = some i) (admits' : s.admits? conv b = some j) :
    (s.mergeAll conv [a, b]).service = (s.mergeChange conv i a).mergeChange conv j b := by
  have hlater : (s.mergeChange conv i a).admits? conv b = some j := by
    rw [admits?_mergeChange_of_ne distinct named', admits']
  rw [mergeAll_pair, mergeAll_singleton_of_admits admits, mergeAll_singleton_of_admits hlater]

theorem exists_query_mergeAll (hq : s.queries.get? x = some q) (changes : List Change) :
    ∃ p, (s.mergeAll conv changes).service.queries.get? x = some p := by
  refine mergeAll_induction (P := fun t => ∃ p, t.queries.get? x = some p) ⟨q, hq⟩ ?_ changes
  rintro t id change - ⟨p, hp⟩
  rw [get?_queries_mergeChange, hp]
  exact ⟨_, rfl⟩

/-- What a service has in common after two changes in one order and in the other. -/
structure Exchanges (conv : Conventions) (a b : Change) (s t t' : Service) : Prop where
  entities : ∀ id, t.entities.get? id = t'.entities.get? id
  index : ∀ id, t.index.get? id = t'.index.get? id
  queries : ∀ x q, s.queries.get? x = some q →
    ∃ p p', t.queries.get? x = some p ∧ t'.queries.get? x = some p' ∧ q.Exchanges conv a b p p'

theorem exchanges_self {changes : List Change} :
    Exchanges conv a b s (s.mergeAll conv changes).service (s.mergeAll conv changes).service where
  entities := fun _ => rfl
  index := fun _ => rfl
  queries := by
    intro x q hq
    obtain ⟨p, hp⟩ := exists_query_mergeAll hq changes
    exact ⟨p, p, hp, hp, Query.exchanges_self q p⟩

/-- Changes of two items come out the same in either order. -/
theorem Mirror.exchanges (h : s.Mirror conv) (distinct : i ≠ j)
    (named : conv.idOf a.item = some i) (named' : conv.idOf b.item = some j) :
    Exchanges conv a b s (s.mergeAll conv [a, b]).service (s.mergeAll conv [b, a]).service := by
  cases ha : s.admits? conv a with
  | none =>
    rw [mergeAll_comm_of_rejects distinct named named' ha]
    exact exchanges_self
  | some id =>
    obtain rfl := Option.some.inj ((admits?_eq_some.mp ha).1.symm.trans named)
    cases hb : s.admits? conv b with
    | none =>
      rw [mergeAll_comm_of_rejects distinct.symm named' named hb]
      exact exchanges_self
    | some id =>
      obtain rfl := Option.some.inj ((admits?_eq_some.mp hb).1.symm.trans named')
      rw [mergeAll_pair_of_admits distinct named' ha hb,
        mergeAll_pair_of_admits distinct.symm named hb ha]
      refine ⟨h.entities_comm distinct named named', index_comm distinct, fun x q hq => ?_⟩
      rw [get?_queries_mergeChange_mergeChange distinct,
        get?_queries_mergeChange_mergeChange distinct.symm, hq]
      exact ⟨_, _, rfl, rfl, Query.exchanges_merged (h.fits hq) (h.mirrors _ hq) (h.mirrors _ hq)
        distinct named named'⟩

end Service

end LiveQuery
