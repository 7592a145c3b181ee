import LiveQuery.Proofs.Service.Exchange

/-!
# Which queries a batch touches

A query is touched by a batch if one of the changes that are applied hits it: the query held the
item when the turn of the change came, or it holds the item right after (`mem_touched_iff`,
`Mirror.mem_affected_iff`). However often it is hit, it is noted once (`nodup_touched`).
-/

namespace LiveQuery.Service

variable {conv : Conventions} {s now : Service} {id : ItemId} {change : Change}
variable {changes : List Change} {x : QueryId}

/-- Is a change of a batch applied, when its turn has come and the changes before it have brought
the service to the given state, and to the item with the given id? -/
structure Applies (conv : Conventions) (s : Service) (changes : List Change) (now : Service)
    (id : ItemId) (change : Change) : Prop where
  turn : ∃ early late, changes = early ++ change :: late ∧
    now = (s.mergeAll conv early).service
  admitted : now.admits? conv change = some id

theorem applies_concat {last : Change} : s.Applies conv (changes ++ [last]) now id change ↔
    s.Applies conv changes now id change ∨
      change = last ∧ now = (s.mergeAll conv changes).service ∧
        now.admits? conv change = some id := by
  constructor
  · rintro ⟨⟨early, late, hsplit, hnow⟩, hadmitted⟩
    rcases List.eq_nil_or_concat late with rfl | ⟨late, final, rfl⟩
    · obtain ⟨rfl, hlast⟩ := List.append_inj' hsplit rfl
      cases hlast
      exact Or.inr ⟨rfl, hnow, hadmitted⟩
    · rw [List.concat_eq_append, ← List.cons_append, ← List.append_assoc] at hsplit
      obtain ⟨rfl, -⟩ := List.append_inj' hsplit rfl
      exact Or.inl ⟨⟨early, late, rfl, hnow⟩, hadmitted⟩
  · rintro (⟨⟨early, late, rfl, hnow⟩, hadmitted⟩ | ⟨rfl, hnow, hadmitted⟩)
    · exact ⟨⟨early, late ++ [last], by simp, hnow⟩, hadmitted⟩
    · exact ⟨⟨changes, [], rfl, hnow⟩, hadmitted⟩

theorem not_applies_nil : ¬s.Applies conv [] now id change := by
  rintro ⟨⟨early, late, hsplit, -⟩, -⟩
  simp at hsplit

theorem nodup_touched (changes : List Change) : (s.mergeAll conv changes).touched.Nodup := by
  induction changes using List.reverseRecOn with
  | nil => exact List.nodup_nil
  | append_singleton changes last ih =>
    rw [mergeAll, List.foldl_concat]
    change ((s.mergeAll conv changes).step conv last).touched.Nodup
    unfold Merged.step
    split
    · exact ih
    · refine List.nodup_append.mpr ⟨ih, nodup_affected.filter _, ?_⟩
      rintro y hy z hz rfl
      exact of_decide_eq_true (List.mem_filter.mp hz).2 hy

/-- The touched queries are those that some applied change affects. -/
theorem mem_touched_iff : x ∈ (s.mergeAll conv changes).touched ↔
    ∃ now id change, s.Applies conv changes now id change ∧
      x ∈ now.affected id change [.leaves, .stays, .joins] := by
  induction changes using List.reverseRecOn with
  | nil => exact iff_of_false List.not_mem_nil fun ⟨_, _, _, h, _⟩ => not_applies_nil h
  | append_singleton changes last ih =>
    rw [mergeAll, List.foldl_append, mem_touched_foldl_step, mem_touched_singleton]
    change x ∈ (s.mergeAll conv changes).touched ∨ _ ↔ _
    rw [ih]
    constructor
    · rintro (⟨now, id, change, happlies, hx⟩ | ⟨id, hadmitted, hx⟩)
      · exact ⟨now, id, change, applies_concat.mpr (Or.inl happlies), hx⟩
      · exact ⟨_, id, last, applies_concat.mpr (Or.inr ⟨rfl, rfl, hadmitted⟩), hx⟩
    · rintro ⟨now, id, change, happlies, hx⟩
      rcases applies_concat.mp happlies with hearlier | ⟨rfl, rfl, hadmitted⟩
      · exact Or.inl ⟨now, id, change, hearlier, hx⟩
      · exact Or.inr ⟨id, hadmitted, hx⟩

theorem admitted_eq_zero : (s.mergeAll conv changes).admitted = 0 ↔
    ¬∃ now id change, s.Applies conv changes now id change := by
  induction changes using List.reverseRecOn with
  | nil => exact iff_of_true rfl fun ⟨_, _, _, h⟩ => not_applies_nil h
  | append_singleton changes last ih =>
    rw [mergeAll, List.foldl_concat]
    change ((s.mergeAll conv changes).step conv last).admitted = 0 ↔ _
    unfold Merged.step
    split
    · next hrejected =>
      rw [ih, not_iff_not]
      refine exists_congr fun now => exists_congr fun id => exists_congr fun change => ?_
      refine ⟨fun h => applies_concat.mpr (Or.inl h), fun h => ?_⟩
      refine (applies_concat.mp h).resolve_right ?_
      rintro ⟨rfl, rfl, hadmitted⟩
      rw [hrejected] at hadmitted
      cases hadmitted
    · next id hadmitted =>
      refine iff_of_false (Nat.succ_ne_zero _) (not_not_intro ?_)
      exact ⟨_, id, last, applies_concat.mpr (Or.inr ⟨rfl, rfl, hadmitted⟩)⟩

theorem Mirror.mem_affected_iff (h : s.Mirror conv) :
    x ∈ s.affected id change [.leaves, .stays, .joins] ↔
      x ∈ s.index.holders id ∨ x ∈ (s.mergeChange conv id change).index.holders id := by
  rw [holders_mergeChange, if_pos rfl, List.mem_append, List.mem_filter]
  constructor
  · intro hx
    obtain ⟨q, hq, he⟩ := mem_affected.mp hx
    by_cases hjoins : s.effectOn id change x q = .joins
    · exact Or.inr (Or.inr (mem_affected.mpr ⟨q, hq, List.mem_singleton.mpr hjoins⟩))
    · refine Or.inl (of_decide_eq_true ?_)
      simp only [List.mem_cons, List.not_mem_nil, or_false] at he
      rcases he with he | he | he
      · exact (Query.effect_eq_leaves.mp he).2.1
      · exact (Query.effect_eq_stays.mp he).2.1
      · exact absurd he hjoins
  · intro hx
    have hheld : x ∈ s.index.holders id → x ∈ s.affected id change [.leaves, .stays, .joins] := by
      intro hx
      obtain ⟨q, hq, hmerges, -⟩ := h.mem_holders.mp hx
      refine mem_affected.mpr ⟨q, hq, ?_⟩
      have hheld : decide (x ∈ s.index.holders id) = true := decide_eq_true hx
      cases hwants : q.wants change with
      | true => simp [effectOn, Query.effect_eq_stays.mpr ⟨hmerges, hheld, hwants⟩]
      | false => simp [effectOn, Query.effect_eq_leaves.mpr ⟨hmerges, hheld, hwants⟩]
    rcases hx with hx | ⟨hx, -⟩ | hx
    · exact hheld hx
    · exact hheld hx
    · obtain ⟨q, hq, he⟩ := mem_affected.mp hx
      exact mem_affected.mpr ⟨q, hq, by simp [List.mem_singleton.mp he]⟩

/-- The touched queries are those that have held the item of an applied change right before the
change or right after it. -/
theorem Mirror.mem_touched (h : s.Mirror conv) : x ∈ (s.mergeAll conv changes).touched ↔
    ∃ now id change, s.Applies conv changes now id change ∧
      (x ∈ now.index.holders id ∨ x ∈ (now.mergeChange conv id change).index.holders id) := by
  rw [mem_touched_iff]
  refine exists_congr fun now => exists_congr fun id => exists_congr fun change => ?_
  refine and_congr_right fun happlies => ?_
  obtain ⟨early, late, -, rfl⟩ := happlies.turn
  exact (h.mergeAll early).mem_affected_iff

theorem exists_query_of_mergeAll {q : Query}
    (hq : (s.mergeAll conv changes).service.queries.get? x = some q) :
    ∃ p, s.queries.get? x = some p := by
  rw [← Option.ne_none_iff_exists']
  intro hnone
  have hstill : (s.mergeAll conv changes).service.queries.get? x = none := by
    refine mergeAll_induction (P := fun t => t.queries.get? x = none) hnone ?_ changes
    rintro t id change - ht
    rw [get?_queries_mergeChange, ht]
    rfl
  rw [hstill] at hq
  cases hq

theorem exists_query_of_touched (touched : x ∈ (s.mergeAll conv changes).touched) :
    ∃ q, s.queries.get? x = some q := by
  obtain ⟨now, id, change, ⟨⟨early, late, -, rfl⟩, -⟩, hx⟩ := mem_touched_iff.mp touched
  obtain ⟨q, hq, -⟩ := mem_affected.mp hx
  exact exists_query_of_mergeAll hq

end LiveQuery.Service
