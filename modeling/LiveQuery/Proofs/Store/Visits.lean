import LiveQuery.Proofs.Cache.Freshness
import LiveQuery.Proofs.Service.Touching
import LiveQuery.Proofs.Store.Bindings

/-!
# Visiting the queries in any order

A change is merged into the queries of its service one after the other, and each of them reads and
writes the memberships under the one id of the change. `Merged.visit` is the turn of one query,
`Merged.walk` what a change does if the queries are visited in a given order. What a visit finds out
about its query depends on this query and its own membership alone, which no other visit changes
(`Merged.Visits.visit`). So after all visits the service is what it is if all queries are looked at
before any is changed (`Merged.Agrees.walk`), and the order does not matter
(`Run.same_in_any_order`).
-/

namespace LiveQuery

namespace Service

variable {conv : Conventions} {s : Service} {m m' n : Merged} {id k : ItemId} {change : Change}
variable {x y : QueryId} {q : Query} {order visited : List QueryId} {effects : List Effect}

/-! ## One query after the other -/

/-- A change has an effect on a query: the query changes, perhaps the index does, and the query is
noted unless it has been before. -/
def Merged.hit (m : Merged) (x : QueryId) (q : Query) (index : Index) : Merged where
  service := { m.service with
    queries := m.service.queries.insert x q
    index }
  touched := if x ∈ m.touched then m.touched else m.touched ++ [x]
  admitted := m.admitted

/-- The turn of one query. It reads the index as the queries before it have left it. A query that
loses the item ends its membership, and the last to do so takes the id out of the index; a query
that gains the item brings the id back if need be. -/
def Merged.visit (conv : Conventions) (id : ItemId) (change : Change) (m : Merged) (x : QueryId) :
    Merged :=
  match m.service.queries.get? x with
  | none => m
  | some q =>
    match m.service.effectOn id change x q with
    | .leaves => m.hit x (q.drop conv id)
        (m.service.index.set id ((m.service.index.holders id).filter (· ≠ x)))
    | .stays => m.hit x (q.replace conv id change.item) m.service.index
    | .joins => m.hit x (q.append conv change.item) (m.service.index.add id x)
    | .unaffected => m

/-- Does the result of one of the given queries show an item with this id? -/
def showsIn (conv : Conventions) (s : Service) (order : List QueryId) (id : ItemId) : Bool :=
  order.any fun x => (s.queries.get? x).any fun q => showsId conv id q.state

/-- Write the entity of a change that has been admitted, and count the change. -/
def Merged.write (m : Merged) (id : ItemId) (change : Change) : Merged := { m with
  service := { m.service with
    entities :=
      if change.kind = .removed then m.service.entities.erase id
      else m.service.entities.insert id change.item }
  admitted := m.admitted + 1 }

/-- Drop the entity of an id if the index knew it before and knows it no more, and none of the
given queries shows it. -/
def Merged.evict (conv : Conventions) (m : Merged) (known : Bool) (id : ItemId)
    (order : List QueryId) : Merged :=
  if known && !m.service.index.contains id && !m.service.showsIn conv order id then
    { m with service := { m.service with entities := m.service.entities.erase id } }
  else m

/-- Apply the next change of a run, and visit the queries in the given order. -/
def Merged.walk (conv : Conventions) (m : Merged) (change : Change) (order : List QueryId) :
    Merged :=
  match m.service.admits? conv change with
  | none => m
  | some id =>
    (order.foldl (Merged.visit conv id change) (m.write id change)).evict conv
      (m.service.index.contains id) id order

/-- Apply changes in the order in which they arrived, and visit the queries for each in an order of
its own. -/
def walkAll (conv : Conventions) (s : Service) (turns : List (Change × List QueryId)) : Merged :=
  turns.foldl (fun m turn => m.walk conv turn.1 turn.2) { service := s }

/-- The queries that are to be fetched again, met in the given order. -/
def refetchingIn (s : Service) (order : List QueryId) : List QueryId :=
  order.filter fun x => (s.queries.get? x).any fun q => q.config.realtime == .refetch

/-! ## When the order does not show -/

/-- Nothing tells two outcomes apart but the order in which things stand. -/
structure Merged.Agrees (m n : Merged) : Prop where
  entities : ∀ id, m.service.entities.get? id = n.service.entities.get? id
  queries : ∀ x, m.service.queries.get? x = n.service.queries.get? x
  indexed : ∀ id, m.service.index.contains id = n.service.index.contains id
  holders : ∀ id, (m.service.index.holders id).Perm (n.service.index.holders id)
  touched : m.touched.Perm n.touched
  admitted : m.admitted = n.admitted

/-- No id is kept without holders, and nothing is noted twice. -/
structure Merged.Neat (m : Merged) : Prop where
  tidy : m.service.index.Tidy
  touched : m.touched.Nodup

theorem Merged.Agrees.symm (h : m.Agrees n) : n.Agrees m where
  entities id := (h.entities id).symm
  queries x := (h.queries x).symm
  indexed id := (h.indexed id).symm
  holders id := (h.holders id).symm
  touched := h.touched.symm
  admitted := h.admitted.symm

theorem Merged.Agrees.trans (h : m.Agrees n) (h' : n.Agrees m') : m.Agrees m' where
  entities id := (h.entities id).trans (h'.entities id)
  queries x := (h.queries x).trans (h'.queries x)
  indexed id := (h.indexed id).trans (h'.indexed id)
  holders id := (h.holders id).trans (h'.holders id)
  touched := h.touched.trans h'.touched
  admitted := h.admitted.trans h'.admitted

theorem Merged.Neat.agrees (hm : m.Neat) (hn : n.Neat)
    (entities : ∀ id, m.service.entities.get? id = n.service.entities.get? id)
    (queries : ∀ x, m.service.queries.get? x = n.service.queries.get? x)
    (holders : ∀ id x, x ∈ m.service.index.holders id ↔ x ∈ n.service.index.holders id)
    (touched : ∀ x, x ∈ m.touched ↔ x ∈ n.touched) (admitted : m.admitted = n.admitted) :
    m.Agrees n where
  entities := entities
  queries := queries
  indexed id := by
    rw [Bool.eq_iff_iff, hm.tidy.contains_iff, hn.tidy.contains_iff, not_iff_not,
      List.eq_nil_iff_forall_not_mem, List.eq_nil_iff_forall_not_mem]
    exact forall_congr' fun x => not_congr (holders id x)
  holders id := (List.perm_ext_iff_of_nodup (hm.tidy.nodup_holders id)
    (hn.tidy.nodup_holders id)).mpr (holders id)
  touched := (List.perm_ext_iff_of_nodup hm.touched hn.touched).mpr touched
  admitted := admitted

/-! ## The turn of one query -/

theorem effectOn_congr {t : Service}
    (h : x ∈ s.index.holders id ↔ x ∈ t.index.holders id) :
    s.effectOn id change x q = t.effectOn id change x q := by
  rw [effectOn, effectOn, decide_eq_decide.mpr h]

theorem mem_affected_of_get? (hq : s.queries.get? x = some q) :
    x ∈ s.affected id change effects ↔ s.effectOn id change x q ∈ effects := by
  rw [mem_affected, hq]
  simp

theorem mem_affected_congr {t : Service} (query : s.queries.get? x = t.queries.get? x)
    (member : x ∈ s.index.holders id ↔ x ∈ t.index.holders id) :
    x ∈ s.affected id change effects ↔ x ∈ t.affected id change effects := by
  rw [mem_affected, mem_affected, query]
  simp only [effectOn_congr member]

theorem get?_visit : (m.visit conv id change x).service.queries.get? y =
    if x = y then (m.service.queries.get? y).map fun q =>
      q.merge conv id change.item (m.service.effectOn id change y q)
    else m.service.queries.get? y := by
  unfold Merged.visit
  cases hq : m.service.queries.get? x with
  | none =>
    dsimp only
    split
    · next hxy => rw [← hxy, hq]; rfl
    · rfl
  | some q =>
    dsimp only
    cases he : m.service.effectOn id change x q with
    | unaffected =>
      dsimp only
      split
      · next hxy => rw [← hxy, hq, Option.map_some, he]; rfl
      · rfl
    | leaves | stays | joins =>
      dsimp only [Merged.hit]
      rw [Table.get?_insert]
      split
      · next hxy => rw [← hxy, hq, Option.map_some, he]; rfl
      · rfl

theorem mem_holders_visit : y ∈ (m.visit conv id change x).service.index.holders k ↔
    if k = id ∧ x = y then
      y ∈ m.service.index.holders k ∧ y ∉ m.service.affected id change [.leaves] ∨
        y ∈ m.service.affected id change [.joins]
    else y ∈ m.service.index.holders k := by
  unfold Merged.visit
  cases hq : m.service.queries.get? x with
  | none =>
    dsimp only
    split
    · next h =>
      obtain ⟨rfl, rfl⟩ := h
      simp [mem_affected, hq]
    · rfl
  | some q =>
    have haffected := fun effects => @mem_affected_of_get? m.service id change x q effects hq
    dsimp only
    cases he : m.service.effectOn id change x q with
    | unaffected | stays =>
      dsimp only [Merged.hit]
      split
      · next h =>
        obtain ⟨rfl, rfl⟩ := h
        simp [haffected, he]
      · rfl
    | leaves =>
      dsimp only [Merged.hit]
      rw [Index.holders_set]
      by_cases hk : id = k
      · subst hk
        by_cases hxy : x = y
        · subst hxy
          simp [haffected, he]
        · simp [hxy, Ne.symm hxy]
      · rw [if_neg hk, if_neg fun h => hk h.1.symm]
    | joins =>
      dsimp only [Merged.hit]
      rw [Index.mem_holders_add]
      by_cases h : k = id ∧ x = y
      · obtain ⟨rfl, rfl⟩ := h
        simp [haffected, he]
      · rw [if_neg h]
        exact or_iff_right fun hnew => h ⟨hnew.1.symm, hnew.2.symm⟩

theorem mem_touched_visit : y ∈ (m.visit conv id change x).touched ↔
    y ∈ m.touched ∨ x = y ∧ y ∈ m.service.affected id change [.leaves, .stays, .joins] := by
  have hhit : ∀ (q : Query) (index : Index),
      y ∈ (m.hit x q index).touched ↔ y ∈ m.touched ∨ x = y := by
    intro q index
    dsimp only [Merged.hit]
    split
    · next hx => exact (or_iff_left_of_imp fun hxy => hxy ▸ hx).symm
    · rw [List.mem_append, List.mem_singleton, eq_comm]
  unfold Merged.visit
  cases hq : m.service.queries.get? x with
  | none =>
    refine (or_iff_left ?_).symm
    rintro ⟨rfl, hx⟩
    obtain ⟨q, hq', -⟩ := mem_affected.mp hx
    rw [hq] at hq'
    cases hq'
  | some q =>
    have haffected := fun effects => @mem_affected_of_get? m.service id change x q effects hq
    dsimp only
    cases he : m.service.effectOn id change x q with
    | unaffected =>
      refine (or_iff_left ?_).symm
      rintro ⟨rfl, hx⟩
      rw [haffected, he] at hx
      simp at hx
    | leaves | stays | joins =>
      refine (hhit _ _).trans (or_congr_right (and_iff_left_of_imp ?_).symm)
      rintro rfl
      rw [haffected, he]
      simp

theorem Merged.Neat.hit {index : Index} (h : m.Neat) (tidy : index.Tidy) :
    (m.hit x q index).Neat where
  tidy := tidy
  touched := by
    dsimp only [Merged.hit]
    split
    · exact h.touched
    · next hnew =>
      exact List.nodup_append.mpr ⟨h.touched, List.nodup_singleton x, fun y hy z hz hyz =>
        hnew (List.mem_singleton.mp hz ▸ hyz ▸ hy)⟩

theorem Merged.Neat.visit (h : m.Neat) : (m.visit conv id change x).Neat := by
  unfold Merged.visit
  split
  · exact h
  · split
    · exact h.hit (h.tidy.set ((h.tidy.nodup_holders id).filter _))
    · exact h.hit h.tidy
    · exact h.hit h.tidy.add
    · exact h

/-! ## The turns of all queries -/

/-- What has become of an outcome once some queries have had their turn: each is as the change
leaves it, and the others are as they were. -/
structure Merged.Visits (conv : Conventions) (id : ItemId) (change : Change) (m m' : Merged)
    (visited : List QueryId) : Prop where
  neat : m'.Neat
  entities : m'.service.entities = m.service.entities
  admitted : m'.admitted = m.admitted
  query : ∀ x, m'.service.queries.get? x =
    if x ∈ visited then (m.service.queries.get? x).map fun q =>
      q.merge conv id change.item (m.service.effectOn id change x q)
    else m.service.queries.get? x
  holders : ∀ k x, x ∈ m'.service.index.holders k ↔
    if k = id ∧ x ∈ visited then
      x ∈ m.service.index.holders k ∧ x ∉ m.service.affected id change [.leaves] ∨
        x ∈ m.service.affected id change [.joins]
    else x ∈ m.service.index.holders k
  touched : ∀ x, x ∈ m'.touched ↔ x ∈ m.touched ∨
    x ∈ visited ∧ x ∈ m.service.affected id change [.leaves, .stays, .joins]

theorem frame_visit (conv : Conventions) (id : ItemId) (change : Change) (m : Merged)
    (x : QueryId) :
    (m.visit conv id change x).service.entities = m.service.entities ∧
      (m.visit conv id change x).admitted = m.admitted := by
  unfold Merged.visit
  split
  · exact ⟨rfl, rfl⟩
  · split <;> exact ⟨rfl, rfl⟩

theorem Merged.Visits.visit (h : m.Visits conv id change m' visited) (new : x ∉ visited) :
    m.Visits conv id change (m'.visit conv id change x) (visited ++ [x]) := by
  have hquery : m'.service.queries.get? x = m.service.queries.get? x := by
    rw [h.query, if_neg new]
  have hmember : x ∈ m'.service.index.holders id ↔ x ∈ m.service.index.holders id := by
    rw [h.holders, if_neg fun hx => new hx.2]
  have haffected : ∀ effects, x ∈ m'.service.affected id change effects ↔
      x ∈ m.service.affected id change effects := fun effects =>
    mem_affected_congr hquery hmember
  obtain ⟨hentities, hadmitted⟩ := frame_visit conv id change m' x
  refine ⟨h.neat.visit, hentities.trans h.entities, hadmitted.trans h.admitted, fun y => ?_,
    fun k y => ?_, fun y => ?_⟩
  · rw [get?_visit]
    by_cases hxy : x = y
    · subst hxy
      rw [if_pos rfl, if_pos (by simp), hquery]
      simp only [effectOn_congr hmember]
    · rw [if_neg hxy, h.query]
      simp [Ne.symm hxy]
  · rw [mem_holders_visit]
    by_cases hxy : x = y
    · subst hxy
      by_cases hk : k = id
      · subst hk
        simp [hmember, haffected]
      · simp [hk, h.holders]
    · rw [if_neg fun hx => hxy hx.2, h.holders]
      simp [Ne.symm hxy]
  · rw [mem_touched_visit, h.touched]
    by_cases hxy : x = y
    · subst hxy
      simp [haffected, new]
    · simp [hxy, Ne.symm hxy]

theorem Merged.Neat.visits (h : m.Neat) (distinct : order.Nodup) :
    m.Visits conv id change (order.foldl (Merged.visit conv id change) m) order := by
  induction order using List.reverseRecOn with
  | nil => exact ⟨h, rfl, rfl, fun x => by simp, fun k x => by simp, fun x => by simp⟩
  | append_singleton order x ih =>
    obtain ⟨hdistinct, -, hnew⟩ := List.nodup_append.mp distinct
    rw [List.foldl_concat]
    exact (ih hdistinct).visit fun hx => hnew x hx x (List.mem_singleton_self x) rfl

/-! ## A change, and a run of changes -/

theorem admits?_congr {t : Service} (entities : ∀ id, s.entities.get? id = t.entities.get? id) :
    s.admits? conv change = t.admits? conv change := by
  unfold admits? isLate
  simp only [entities]

theorem showsIn_eq {t : Service} (queries : ∀ x, s.queries.get? x = t.queries.get? x)
    (covers : ∀ x q, s.queries.get? x = some q → x ∈ order) :
    s.showsIn conv order id = shownByAny conv t.queries id := by
  rw [Bool.eq_iff_iff]
  simp only [showsIn, shownByAny, List.any_eq_true, Option.any_eq_true, Prod.exists,
    Table.mem_entries]
  constructor
  · rintro ⟨x, -, q, hq, hshows⟩
    exact ⟨x, q, (queries x).symm.trans hq, hshows⟩
  · rintro ⟨x, q, hq, hshows⟩
    have hq := (queries x).trans hq
    exact ⟨x, covers x q hq, q, hq, hshows⟩

theorem frame_evict (conv : Conventions) (m : Merged) (known : Bool) (id : ItemId)
    (order : List QueryId) :
    (m.evict conv known id order).service.queries = m.service.queries ∧
      (m.evict conv known id order).service.index = m.service.index ∧
      (m.evict conv known id order).touched = m.touched ∧
      (m.evict conv known id order).admitted = m.admitted := by
  unfold Merged.evict
  split <;> exact ⟨rfl, rfl, rfl, rfl⟩

section Turns

variable {v : Merged} (h : m.Agrees n) (hv : (m.write id change).Visits conv id change v order)
variable (covers : ∀ x q, m.service.queries.get? x = some q → x ∈ order)

include h in
theorem Merged.Agrees.mem_affected (x : QueryId) (effects : List Effect) :
    x ∈ m.service.affected id change effects ↔ x ∈ n.service.affected id change effects :=
  mem_affected_congr (h.queries x) (h.holders id).mem_iff

include covers in
theorem mem_order_of_affected (hx : x ∈ m.service.affected id change effects) : x ∈ order := by
  obtain ⟨q, hq, -⟩ := mem_affected.mp hx
  exact covers x q hq

include h hv covers

/-- After all visits every query is as if all had been looked at before. -/
theorem get?_of_visits (x : QueryId) :
    v.service.queries.get? x = (n.service.mergeChange conv id change).queries.get? x := by
  have hquery : v.service.queries.get? x =
      if x ∈ order then (m.service.queries.get? x).map fun q =>
        q.merge conv id change.item (m.service.effectOn id change x q)
      else m.service.queries.get? x := hv.query x
  rw [hquery, get?_queries_mergeChange, ← h.queries x]
  split
  · exact Option.map_congr fun q _ => congrArg _ (effectOn_congr (h.holders id).mem_iff)
  · next hx =>
    cases hq : m.service.queries.get? x with
    | none => rfl
    | some q => exact absurd (covers x q hq) hx

theorem mem_holders_of_visits (k : ItemId) (x : QueryId) : x ∈ v.service.index.holders k ↔
    x ∈ (n.service.mergeChange conv id change).index.holders k := by
  have hholders : x ∈ v.service.index.holders k ↔
      if k = id ∧ x ∈ order then
        x ∈ m.service.index.holders k ∧ x ∉ m.service.affected id change [.leaves] ∨
          x ∈ m.service.affected id change [.joins]
      else x ∈ m.service.index.holders k := hv.holders k x
  rw [hholders, holders_mergeChange]
  by_cases hk : id = k
  · subst hk
    have hout : x ∉ order → ∀ effects, x ∉ m.service.affected id change effects :=
      fun hx effects hmem => hx (mem_order_of_affected covers hmem)
    rw [if_pos rfl, List.mem_append, List.mem_filter, decide_eq_true_eq, ← h.mem_affected,
      ← h.mem_affected, ← (h.holders id).mem_iff]
    by_cases hx : x ∈ order
    · rw [if_pos ⟨rfl, hx⟩]
    · rw [if_neg fun hx' => hx hx'.2]
      simp [hout hx]
  · rw [if_neg fun hx => hk hx.1.symm, if_neg hk]
    exact (h.holders k).mem_iff

theorem mem_touched_of_visits (ha : n.service.admits? conv change = some id) (x : QueryId) :
    x ∈ v.touched ↔ x ∈ (n.step conv change).touched := by
  have htouched : x ∈ v.touched ↔ x ∈ m.touched ∨
      x ∈ order ∧ x ∈ m.service.affected id change [.leaves, .stays, .joins] := hv.touched x
  rw [htouched, h.touched.mem_iff, h.mem_affected]
  simp only [Merged.step, ha, List.mem_append, List.mem_filter, decide_eq_true_eq]
  have hcovered : x ∈ n.service.affected id change [.leaves, .stays, .joins] → x ∈ order :=
    fun hx => mem_order_of_affected covers ((h.mem_affected _ _).mpr hx)
  tauto

theorem evicts_of_visits :
    (m.service.index.contains id && !v.service.index.contains id &&
      !v.service.showsIn conv order id) = n.service.evicts conv id change := by
  have hindexed : (!v.service.index.contains id) =
      ((n.service.mergeChange conv id change).index.holders id).isEmpty := by
    rw [Bool.eq_iff_iff, Bool.not_eq_true', ← Bool.not_eq_true, hv.neat.tidy.contains_iff,
      not_not, List.isEmpty_iff, List.eq_nil_iff_forall_not_mem, List.eq_nil_iff_forall_not_mem]
    exact forall_congr' fun x => not_congr (mem_holders_of_visits h hv covers id x)
  have hcovers : ∀ x q, v.service.queries.get? x = some q → x ∈ order := by
    intro x q hq
    rw [get?_of_visits h hv covers, get?_queries_mergeChange, Option.map_eq_some_iff] at hq
    obtain ⟨p, hp, -⟩ := hq
    exact covers x p ((h.queries x).trans hp)
  rw [evicts, ← h.indexed id, hindexed, showsIn_eq (get?_of_visits h hv covers) hcovers]

end Turns

theorem Merged.Agrees.walk (h : m.Agrees n) (hm : m.Neat) (hn : (n.step conv change).Neat)
    (distinct : order.Nodup) (covers : ∀ x q, m.service.queries.get? x = some q → x ∈ order) :
    (m.walk conv change order).Neat ∧ (m.walk conv change order).Agrees (n.step conv change) := by
  unfold Merged.walk
  rw [admits?_congr h.entities]
  cases ha : n.service.admits? conv change with
  | none =>
    rw [step_of_rejects ha]
    exact ⟨hm, h⟩
  | some id =>
    have hwrite : (m.write id change).Neat := ⟨hm.tidy, hm.touched⟩
    have hv : (m.write id change).Visits conv id change
        (order.foldl (Merged.visit conv id change) (m.write id change)) order :=
      hwrite.visits distinct
    dsimp only
    generalize order.foldl (Merged.visit conv id change) (m.write id change) = v at hv
    obtain ⟨hqueries, hindex, htouched, hadmitted⟩ :=
      frame_evict conv v (m.service.index.contains id) id order
    have hneat : (v.evict conv (m.service.index.contains id) id order).Neat :=
      ⟨hindex ▸ hv.neat.tidy, htouched ▸ hv.neat.touched⟩
    refine ⟨hneat, hneat.agrees hn (fun k => ?_) (fun x => ?_) (fun k x => ?_) (fun x => ?_) ?_⟩
    · have hwritten : ∀ k, v.service.entities.get? k =
          (if change.kind = .removed then n.service.entities.erase id
            else n.service.entities.insert id change.item).get? k := by
        intro k
        rw [hv.entities]
        dsimp only [Merged.write]
        split
        · rw [Table.get?_erase, Table.get?_erase, h.entities]
        · rw [Table.get?_insert, Table.get?_insert, h.entities]
      rw [Merged.evict, evicts_of_visits h hv covers, step_of_admits ha, entities_mergeChange]
      split
      · rw [Table.get?_erase, Table.get?_erase, hwritten]
      · exact hwritten k
    · rw [hqueries, get?_of_visits h hv covers, step_of_admits ha]
    · rw [hindex, mem_holders_of_visits h hv covers, step_of_admits ha]
    · rw [htouched, mem_touched_of_visits h hv covers ha]
    · rw [hadmitted, hv.admitted]
      simp [Merged.step, ha, Merged.write, h.admitted]

/-- However the queries are visited, a run of changes does what it does if for each change all
queries are looked at before any is changed. -/
theorem Mirror.walkAll {turns : List (Change × List QueryId)} (h : s.Mirror conv)
    (distinct : ∀ turn ∈ turns, turn.2.Nodup)
    (covers : ∀ turn ∈ turns, ∀ x q, s.queries.get? x = some q → x ∈ turn.2) :
    (s.walkAll conv turns).Neat ∧
      (s.walkAll conv turns).Agrees (s.mergeAll conv (turns.map Prod.fst)) := by
  have hneat : ∀ changes, (s.mergeAll conv changes).Neat := fun changes =>
    ⟨(h.mergeAll changes).tidy, nodup_touched changes⟩
  induction turns using List.reverseRecOn with
  | nil =>
    exact ⟨hneat [], fun _ => rfl, fun _ => rfl, fun _ => rfl, fun _ => .refl _, .refl _, rfl⟩
  | append_singleton turns last ih =>
    simp only [List.mem_append, List.mem_singleton, or_imp, forall_and, forall_eq]
      at distinct covers
    obtain ⟨hm, hagrees⟩ := ih distinct.1 covers.1
    have hlast : (s.mergeAll conv ((turns ++ [last]).map Prod.fst)) =
        (s.mergeAll conv (turns.map Prod.fst)).step conv last.1 := by
      rw [Service.mergeAll, List.map_append, List.foldl_append]
      rfl
    have hwalked : s.walkAll conv (turns ++ [last]) =
        (s.walkAll conv turns).walk conv last.1 last.2 := by
      rw [Service.walkAll, List.foldl_concat]
      rfl
    rw [hwalked, hlast]
    refine hagrees.walk hm (hlast ▸ hneat _) distinct.2 fun x q hq => ?_
    rw [hagrees.queries] at hq
    obtain ⟨p, hp⟩ := exists_query_of_mergeAll hq
    exact covers.2 x p hp

theorem refetchingIn_perm {t : Service} (queries : ∀ x, s.queries.get? x = t.queries.get? x)
    (distinct : order.Nodup) (covers : ∀ x q, s.queries.get? x = some q → x ∈ order) :
    (s.refetchingIn order).Perm t.refetching := by
  have hnodup : t.refetching.Nodup := (List.filter_sublist.map Prod.fst).nodup t.queries.nodup
  refine (List.perm_ext_iff_of_nodup (distinct.filter _) hnodup).mpr fun x => ?_
  simp only [refetching, List.mem_filter, List.mem_map, Prod.exists, Table.mem_entries,
    Option.any_eq_true, queries]
  constructor
  · rintro ⟨-, q, hq, hrefetch⟩
    exact ⟨x, q, ⟨hq, hrefetch⟩, rfl⟩
  · rintro ⟨y, q, ⟨hq, hrefetch⟩, rfl⟩
    exact ⟨covers y q ((queries y).trans hq), q, hq, hrefetch⟩

end Service

variable {setup : Setup} {history : List Happening} {w : World}

/-- In any state of a run, a batch has the same outcome in whatever order the queries are visited,
for each change anew: it is the outcome that the store takes over. -/
theorem Run.same_in_any_order (run : Run setup history w) (name : String)
    {turns turns' : List (Change × List QueryId)} {last last' : List QueryId}
    (changes : turns.map Prod.fst = turns'.map Prod.fst)
    (orders : ∀ turn ∈ turns, turn.2.Perm (w.store.service name).queries.keys)
    (orders' : ∀ turn ∈ turns', turn.2.Perm (w.store.service name).queries.keys)
    (order : last.Perm (w.store.service name).queries.keys)
    (order' : last'.Perm (w.store.service name).queries.keys) :
    ((w.store.service name).walkAll setup.conventions turns).Agrees
        ((w.store.service name).walkAll setup.conventions turns') ∧
      (((w.store.service name).walkAll setup.conventions turns).service.refetchingIn last).Perm
        (((w.store.service name).walkAll setup.conventions turns').service.refetchingIn last') ∧
      ((w.store.service name).walkAll setup.conventions turns).Agrees
        ((w.store.service name).mergeAll setup.conventions (turns.map Prod.fst)) ∧
      (((w.store.service name).walkAll setup.conventions turns).service.refetchingIn last).Perm
        ((w.store.service name).mergeAll setup.conventions
          (turns.map Prod.fst)).service.refetching := by
  have hmirror : (w.store.service name).Mirror setup.conventions := run.mirror name
  have hdistinct : ∀ {order : List QueryId},
      order.Perm (w.store.service name).queries.keys → order.Nodup :=
    fun h => h.nodup_iff.mpr (w.store.service name).queries.nodup
  have hcovers : ∀ {order : List QueryId}, order.Perm (w.store.service name).queries.keys →
      ∀ x q, (w.store.service name).queries.get? x = some q → x ∈ order := fun h x q hq =>
    h.mem_iff.mpr (Table.mem_keys.mpr (by rw [hq]; rfl))
  have hwalked : ∀ {turns : List (Change × List QueryId)} {last : List QueryId},
      (∀ turn ∈ turns, turn.2.Perm (w.store.service name).queries.keys) →
      last.Perm (w.store.service name).queries.keys →
      ((w.store.service name).walkAll setup.conventions turns).Agrees
          ((w.store.service name).mergeAll setup.conventions (turns.map Prod.fst)) ∧
        (((w.store.service name).walkAll setup.conventions turns).service.refetchingIn last).Perm
          ((w.store.service name).mergeAll setup.conventions
            (turns.map Prod.fst)).service.refetching := by
    intro turns last horders horder
    obtain ⟨-, hagrees⟩ := hmirror.walkAll (fun turn ht => hdistinct (horders turn ht))
      fun turn ht => hcovers (horders turn ht)
    refine ⟨hagrees, Service.refetchingIn_perm hagrees.queries (hdistinct horder) ?_⟩
    intro x q hq
    rw [hagrees.queries] at hq
    obtain ⟨p, hp⟩ := Service.exists_query_of_mergeAll hq
    exact hcovers horder x p hp
  obtain ⟨hagrees, hrefetching⟩ := hwalked orders order
  obtain ⟨hagrees', hrefetching'⟩ := hwalked orders' order'
  rw [← changes] at hagrees' hrefetching'
  exact ⟨hagrees.trans hagrees'.symm, hrefetching.trans hrefetching'.symm, hagrees, hrefetching⟩

/-! ## Notes in two lists -/

namespace Notes

/-- Beside the ideas there are a list of all notes and one that is fetched anew. -/
def filing : List Act :=
  [.materialize everything, .goOn, .subscribe everything.id, .goOn, .giveBack, .goOn,
    .answered everything.id 2 (.ok (.list [note 1 100 "idea", note 3 100 "todo"], [])), .goOn,
    .giveBack, .materialize freshIdeas]

def filed : World := opened.play {} filing

/-- The first note is done, the third is removed, and a second one is an idea: the ideas are
visited before all notes first, and later after them. -/
def ahead : List (Change × List QueryId) :=
  [(⟨.patched, note 1 300 "todo"⟩, [ideas.id, everything.id, freshIdeas.id]),
    (⟨.removed, note 3 300 "todo"⟩, [everything.id, freshIdeas.id, ideas.id]),
    (⟨.created, note 2 300 "idea"⟩, [freshIdeas.id, everything.id, ideas.id])]

def behind : List (Change × List QueryId) :=
  [(⟨.patched, note 1 300 "todo"⟩, [freshIdeas.id, everything.id, ideas.id]),
    (⟨.removed, note 3 300 "todo"⟩, [ideas.id, everything.id, freshIdeas.id]),
    (⟨.created, note 2 300 "idea"⟩, [ideas.id, everything.id, freshIdeas.id])]

/-- The lists are touched in another order, and nothing else differs. -/
theorem notes_filed_in_any_order :
    (∃ history, Run {} history filed) ∧
      ((filed.store.service "notes").walkAll .standard ahead).touched =
        [ideas.id, everything.id] ∧
      ((filed.store.service "notes").walkAll .standard behind).touched =
        [everything.id, ideas.id] ∧
      ((filed.store.service "notes").walkAll .standard ahead).Agrees
        ((filed.store.service "notes").walkAll .standard behind) := by
  obtain ⟨history, hopened⟩ := run_opened
  have hrun : Run {} _ filed := hopened.play filing
  have hchanges : ahead.map Prod.fst = behind.map Prod.fst := rfl
  obtain ⟨hagrees, -⟩ := Run.same_in_any_order hrun "notes" hchanges (by decide +kernel)
    (by decide +kernel) (.refl _) (.refl _)
  exact ⟨⟨_, hrun⟩, by decide +kernel, by decide +kernel, hagrees⟩

end Notes

end LiveQuery
