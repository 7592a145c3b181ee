import LiveQuery.Proofs.Service.Operations

/-!
# Rejected changes

Whether a change is rejected is decided when its turn comes: its item has no id, or it is an update
older than the entity that is cached then, which earlier changes of the same batch may have
written, removed or dropped. `Service.sifted` deletes every change that is rejected at its turn.
Merging what is left comes to exactly the same as merging the batch (`Service.mergeAll_sifted`).
-/

namespace LiveQuery.Service

variable {conv : Conventions} {s : Service} {id : ItemId} {change : Change}

/-- Is a change rejected: has its item no id, or is it an update older than the cached entity? -/
def Rejects (conv : Conventions) (s : Service) (change : Change) : Prop :=
  ∀ id, conv.idOf change.item = some id →
    (change.kind = .updated ∨ change.kind = .patched) ∧
      ∃ cached, s.entities.get? id = some cached ∧ conv.isStale cached change.item = true

theorem isLate_eq_true : s.isLate conv id change = true ↔
    (change.kind = .updated ∨ change.kind = .patched) ∧
      ∃ cached, s.entities.get? id = some cached ∧ conv.isStale cached change.item = true := by
  unfold isLate
  cases change.kind with
  | created | removed => simp
  | updated | patched => cases s.entities.get? id <;> simp

theorem admits?_eq_none : s.admits? conv change = none ↔ s.Rejects conv change := by
  constructor
  · intro hnone id hid
    cases hlate : s.isLate conv id change with
    | true => exact isLate_eq_true.mp hlate
    | false =>
      rw [admits?_eq_some.mpr ⟨hid, hlate⟩] at hnone
      cases hnone
  · intro hrejects
    refine Option.eq_none_iff_forall_ne_some.mpr fun id hsome => ?_
    obtain ⟨hid, hlate⟩ := admits?_eq_some.mp hsome
    rw [isLate_eq_true.mpr (hrejects id hid)] at hlate
    cases hlate

instance (conv : Conventions) (s : Service) (change : Change) :
    Decidable (s.Rejects conv change) :=
  decidable_of_iff _ admits?_eq_none

/-- What is left of a batch without the changes that are rejected when their turn comes. -/
def sifted (conv : Conventions) : Service → List Change → List Change
  | _, [] => []
  | s, change :: changes =>
    let rest := sifted conv (s.mergeAll conv [change]).service changes
    if s.Rejects conv change then rest else change :: rest

theorem sifted_cons_of_rejects {changes : List Change} (h : s.Rejects conv change) :
    s.sifted conv (change :: changes) = s.sifted conv changes := by
  rw [sifted, if_pos h, mergeAll_singleton_of_rejects (admits?_eq_none.mpr h)]

theorem sifted_cons_of_admits {changes : List Change} (h : s.admits? conv change = some id) :
    s.sifted conv (change :: changes) =
      change :: (s.mergeChange conv id change).sifted conv changes := by
  have hadmits : ¬s.Rejects conv change := fun hrejects => by
    rw [admits?_eq_none.mpr hrejects] at h
    cases h
  rw [sifted, if_neg hadmits, mergeAll_singleton_of_admits h]

theorem foldl_step_sifted (changes : List Change) (m : Merged) :
    (m.service.sifted conv changes).foldl (Merged.step conv) m =
      changes.foldl (Merged.step conv) m := by
  induction changes generalizing m with
  | nil => rfl
  | cons change changes ih =>
    cases ha : m.service.admits? conv change with
    | none =>
      rw [sifted_cons_of_rejects (admits?_eq_none.mp ha), List.foldl_cons, step_of_rejects ha, ih]
    | some id =>
      rw [sifted_cons_of_admits ha, List.foldl_cons, List.foldl_cons, ← ih, step_of_admits ha]

/-- The service, the touched queries and the number of admitted changes are the same without the
changes that are rejected. -/
theorem mergeAll_sifted (changes : List Change) :
    s.mergeAll conv (s.sifted conv changes) = s.mergeAll conv changes :=
  foldl_step_sifted changes { service := s }

theorem sifted_eq_nil {changes : List Change} : s.sifted conv changes = [] ↔
    ∀ early change late, changes = early ++ change :: late →
      (s.mergeAll conv early).service.Rejects conv change := by
  induction changes with
  | nil => simp [sifted]
  | cons first changes ih =>
    cases ha : s.admits? conv first with
    | none =>
      have hfirst : s.Rejects conv first := admits?_eq_none.mp ha
      rw [sifted_cons_of_rejects hfirst, ih]
      constructor
      · intro hrejects early change late hsplit
        cases early with
        | nil =>
          obtain ⟨rfl, -⟩ := List.cons.inj hsplit
          exact hfirst
        | cons second early =>
          obtain ⟨rfl, htail⟩ := List.cons.inj hsplit
          rw [mergeAll_cons, mergeAll_singleton_of_rejects ha]
          exact hrejects early change late htail
      · intro hrejects early change late hsplit
        have hlast := hrejects (first :: early) change late (by rw [hsplit, List.cons_append])
        rwa [mergeAll_cons, mergeAll_singleton_of_rejects ha] at hlast
    | some id =>
      rw [sifted_cons_of_admits ha]
      refine ⟨fun hnil => (List.cons_ne_nil _ _ hnil).elim, fun hrejects => ?_⟩
      have hfirst : s.Rejects conv first := hrejects [] first changes rfl
      rw [admits?_eq_none.mpr hfirst] at ha
      cases ha

end LiveQuery.Service
