import LiveQuery.Filter

/-!
# Filters as conjunctions

A filter is the conjunction of its members (`allHold_eq_all`). A member is a disjunction or a
conjunction of sub-filters (`memberHolds_or`, `memberHolds_and`), or says nothing, or is a condition
on a field. Sub-filters are the objects in the list of a combinator; whatever else stands there is
passed over. What can be shown of a filter from what holds of its sub-filters holds of every filter
(`subFilter_induction`).
-/

namespace LiveQuery.Filter

def objects (subs : List Json) : List Fields := subs.filterMap Json.members?

/-- The sub-filters that a combinator is given; none if it is not given a list. -/
def subFilters (condition : Json) : List Fields := objects (condition.items?.getD [])

variable {item : Json} {name : String} {ms ns : Fields}

@[simp] theorem objects_nil : objects [] = [] := rfl

@[simp] theorem objects_cons_object (ms : Fields) (subs : List Json) :
    objects (.object ms :: subs) = ms :: objects subs := rfl

@[simp] theorem objects_append (before behind : List Json) :
    objects (before ++ behind) = objects before ++ objects behind :=
  List.filterMap_append

@[simp] theorem objects_map_object {α : Type} (part : α → Fields) (as : List α) :
    objects (as.map fun a => .object (part a)) = as.map part := by
  induction as with
  | nil => rfl
  | cons a as ih => exact congrArg (part a :: ·) ih

theorem mem_of_mem_objects {subs : List Json} (mem : ms ∈ objects subs) : .object ms ∈ subs := by
  obtain ⟨v, hv, hmembers⟩ := List.mem_filterMap.mp mem
  cases v with
  | object ns => exact Option.some.inj hmembers ▸ hv
  | null | bool | number | string | array => cases hmembers

@[simp] theorem subFilters_array (subs : List Json) : subFilters (.array subs) = objects subs := rfl

theorem all_eq_all {α : Type} {as : List α} {p q : α → Bool} (same : ∀ a ∈ as, p a = q a) :
    as.all p = as.all q := by
  rw [Bool.eq_iff_iff, List.all_eq_true, List.all_eq_true]
  exact forall₂_congr fun a ha => by rw [same a ha]

theorem any_eq_any {α : Type} {as : List α} {p q : α → Bool} (same : ∀ a ∈ as, p a = q a) :
    as.any p = as.any q := by
  rw [Bool.eq_iff_iff, List.any_eq_true, List.any_eq_true]
  exact exists_congr fun a => and_congr_right fun ha => by rw [same a ha]

/-! ## What a filter asks -/

theorem allHold_eq_all (ms : Fields) (item : Json) :
    allHold ms item = ms.all fun m => memberHolds m.1 m.2 item := by
  induction ms with
  | nil => simp [allHold]
  | cons m ms ih => rw [allHold, ih, List.all_cons]

theorem allHold_append : allHold (ms ++ ns) item = (allHold ms item && allHold ns item) := by
  simp only [allHold_eq_all, List.all_append]

theorem allHold_singleton (m : String × Json) : allHold [m] item = memberHolds m.1 m.2 item := by
  simp [allHold_eq_all]

theorem allHold_perm (perm : ms.Perm ns) : allHold ms item = allHold ns item := by
  rw [allHold_eq_all, allHold_eq_all, perm.all_eq]

theorem eachOf_eq_all (subs : List Json) (item : Json) :
    eachOf subs item = (objects subs).all (allHold · item) := by
  induction subs with
  | nil => simp [eachOf]
  | cons sub subs ih =>
    cases sub with
    | object ms => rw [eachOf, ih, objects_cons_object, List.all_cons]
    | null | bool | number | string | array => simp only [eachOf]; exact ih

theorem anyOf_eq_any (subs : List Json) (item : Json) :
    anyOf subs item = (objects subs).any (allHold · item) := by
  induction subs with
  | nil => simp [anyOf]
  | cons sub subs ih =>
    cases sub with
    | object ms => rw [anyOf, ih, objects_cons_object, List.any_cons]
    | null | bool | number | string | array => simp only [anyOf]; exact ih

theorem memberHolds_or (condition item : Json) :
    memberHolds "$or" condition item = (subFilters condition).any (allHold · item) := by
  cases condition <;> simp [memberHolds, anyOf_eq_any, subFilters, Json.items?]

theorem memberHolds_and (condition item : Json) :
    memberHolds "$and" condition item = (subFilters condition).all (allHold · item) := by
  cases condition <;> simp [memberHolds, eachOf_eq_all, subFilters, Json.items?]

theorem memberHolds_of_shaping (shaping : name ∈ shapingNames) (condition item : Json) :
    memberHolds name condition item = true := by
  have hor : name ≠ "$or" := fun h => absurd (h ▸ shaping) (by decide)
  have hand : name ≠ "$and" := fun h => absurd (h ▸ shaping) (by decide)
  cases condition <;> simp [memberHolds, hor, hand, shaping]

theorem memberHolds_of_field (hor : name ≠ "$or") (hand : name ≠ "$and")
    (hshaping : name ∉ shapingNames) (condition item : Json) :
    memberHolds name condition item = fieldHolds (item.field? name) condition := by
  cases condition <;> simp [memberHolds, hor, hand, hshaping]

theorem sizeOf_subFilter {m : String × Json} {sub : Fields} (hm : m ∈ ms)
    (hsub : sub ∈ subFilters m.2) : sizeOf sub < sizeOf ms := by
  obtain ⟨name, condition⟩ := m
  cases condition with
  | array subs =>
    have hlist : sizeOf (Json.object sub) < sizeOf subs :=
      List.sizeOf_lt_of_mem (mem_of_mem_objects hsub)
    have hmember := List.sizeOf_lt_of_mem hm
    simp only [Json.object.sizeOf_spec, Json.array.sizeOf_spec, Prod.mk.sizeOf_spec]
      at hlist hmember
    omega
  | null | bool | number | string | object => cases hsub

/-- What holds of a filter as soon as it holds of the sub-filters of its members holds of all
filters. -/
theorem subFilter_induction {P : Fields → Prop}
    (step : ∀ ms, (∀ m ∈ ms, ∀ sub ∈ subFilters m.2, P sub) → P ms) (filter : Fields) :
    P filter := by
  induction hsize : sizeOf filter using Nat.strongRecOn generalizing filter with
  | ind n ih =>
    refine step filter fun m hm sub hsub => ih (sizeOf sub) ?_ sub rfl
    rw [← hsize]
    exact sizeOf_subFilter hm hsub

end LiveQuery.Filter
