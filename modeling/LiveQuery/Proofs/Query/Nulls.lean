import LiveQuery.Proofs.Json.Members
import LiveQuery.Proofs.Query.Combinators

/-!
# Missing fields and null fields

A backend may send a field as `null` or leave it out. No filter can tell: whatever it asks, it asks
of the value at some path, where nothing counts as `null` (`fieldHolds_getD`), and a path that
starts at a missing field ends in nothing just as one that starts at a `null` field
(`follow_getD`). So two items that agree in their fields up to this are accepted by the same
filters (`accepts_object_congr`), in particular if `null` fields are taken out of an item or put
into it (`accepts_up_to_nulls`).
-/

namespace LiveQuery

theorem pathParts_ne_nil (cs : List Char) : pathParts cs ≠ [] := by
  cases cs with
  | nil => exact List.cons_ne_nil _ _
  | cons c cs =>
    unfold pathParts
    split
    · exact List.cons_ne_nil _ _
    · split <;> exact List.cons_ne_nil _ _

namespace Json

theorem follow_getD (found : Option Json) (names : List String) :
    ((found.bind (follow · names)).getD .null) = ((found.getD .null).follow names).getD .null := by
  cases found with
  | some v => rfl
  | none => cases names <;> rfl

/-- Do two objects have the same fields if a missing field counts as `null`? -/
def SameFields (fs gs : Fields) : Prop :=
  ∀ name, (Fields.get? fs name).getD .null = (Fields.get? gs name).getD .null

variable {fs gs : Fields}

theorem field?_getD_congr (same : SameFields fs gs) (path : String) :
    ((object fs).field? path).getD .null = ((object gs).field? path).getD .null := by
  unfold field?
  obtain ⟨part, parts, hparts⟩ := List.exists_cons_of_ne_nil (pathParts_ne_nil path.toList)
  rw [hparts, List.map_cons, follow, follow, follow_getD, follow_getD]
  exact congrArg (fun v => (follow v (parts.map String.ofList)).getD .null) (same _)

end Json

namespace Filter

variable {a b : Json} {fs gs : Fields}

theorem fieldHolds_getD (found : Option Json) (condition : Json) :
    fieldHolds found condition = fieldHolds (some (found.getD .null)) condition := by
  cases found <;> rfl

/-- Two items have the same value at every path, where nothing counts as `null`. -/
def SamePaths (a b : Json) : Prop :=
  ∀ path, (a.field? path).getD .null = (b.field? path).getD .null

theorem fieldHolds_congr (same : SamePaths a b) (path : String) (condition : Json) :
    fieldHolds (a.field? path) condition = fieldHolds (b.field? path) condition := by
  rw [fieldHolds_getD, same path, ← fieldHolds_getD]

theorem memberHolds_congr (same : SamePaths a b) {condition : Json} (name : String)
    (subs : ∀ sub ∈ subFilters condition, allHold sub a = allHold sub b) :
    memberHolds name condition a = memberHolds name condition b := by
  by_cases hor : name = "$or"
  · rw [hor, memberHolds_or, memberHolds_or]
    exact any_eq_any subs
  by_cases hand : name = "$and"
  · rw [hand, memberHolds_and, memberHolds_and]
    exact all_eq_all subs
  by_cases hshaping : name ∈ shapingNames
  · rw [memberHolds_of_shaping hshaping, memberHolds_of_shaping hshaping]
  · rw [memberHolds_of_field hor hand hshaping, memberHolds_of_field hor hand hshaping,
      fieldHolds_congr same]

theorem allHold_congr (same : SamePaths a b) (ms : Fields) : allHold ms a = allHold ms b := by
  induction ms using subFilter_induction with
  | step ms subs =>
    rw [allHold_eq_all, allHold_eq_all]
    exact all_eq_all fun m hm => memberHolds_congr same m.1 (subs m hm)

theorem accepts_congr (same : SamePaths a b) (filter : Option Json) :
    accepts filter a = accepts filter b := by
  unfold accepts
  split
  · exact allHold_congr same _
  · rfl

/-- No filter tells apart two objects with the same fields, a missing one counting as `null`. -/
theorem accepts_object_congr (same : Json.SameFields fs gs) (filter : Option Json) :
    accepts filter (.object fs) = accepts filter (.object gs) :=
  accepts_congr (Json.field?_getD_congr same) filter

end Filter

theorem Fields.get?_merge_nulls (fs : Fields) (names : List String) (key : String) :
    get? (merge fs (names.map (·, .null))) key =
      if key ∈ names then some .null else get? fs key := by
  induction names generalizing fs with
  | nil => simp [merge]
  | cons name names ih =>
    have hstep : merge fs ((name :: names).map (·, .null)) =
        merge (insert fs name .null) (names.map (·, .null)) := rfl
    rw [hstep, ih, get?_insert]
    by_cases hkey : key ∈ names
    · simp [hkey]
    · by_cases hname : name = key
      · simp [hname]
      · simp [hkey, hname, Ne.symm hname]

/-- **A null field is as good as a missing one.** Whatever a filter asks, an item passes it or not
regardless of whether any of its `null` fields are left out, and regardless of whether `null` is
written for any fields that it lacks. -/
theorem Filter.accepts_up_to_nulls (filter : Option Json) (fs : Fields) (names : List String) :
    ((∀ name ∈ names, Fields.get? fs name = some .null) →
      accepts filter (.object (fs.filter fun m => m.1 ∉ names)) = accepts filter (.object fs)) ∧
    ((∀ name ∈ names, Fields.get? fs name = none) →
      accepts filter (.object (Fields.merge fs (names.map (·, .null)))) =
        accepts filter (.object fs)) := by
  constructor
  · intro nulls
    refine accepts_object_congr (fun key => ?_) filter
    rw [Fields.get?_filter (fun name => decide (name ∉ names))]
    by_cases hkey : key ∈ names
    · simp [hkey, nulls key hkey]
    · simp [hkey]
  · intro lacking
    refine accepts_object_congr (fun key => ?_) filter
    rw [Fields.get?_merge_nulls]
    by_cases hkey : key ∈ names
    · simp [hkey, lacking key hkey]
    · simp [hkey]

namespace Notes

/-- A note whose author and editor are sent as `null`. -/
def anonymous : Fields := [("author", .null), ("editor", .null), ("tag", .string "idea")]

/-- Asks for a note that is no draft, and whose author has no name or whose editor is nobody. -/
def unsigned : Json := .object
  [("$or", .array [.object [("author.name", .object [("$exists", .bool false)])],
    .object [("editor", .null)]]),
   ("draft", .object [("$ne", .bool true)])]

/-- The note passes with its author and editor left out, and with a field `draft` that is `null`. -/
theorem anonymous_passes :
    Filter.accepts (some unsigned) (.object [("tag", .string "idea")]) = true ∧
    Filter.accepts (some unsigned) (.object (Fields.insert anonymous "draft" .null)) = true := by
  have hpasses : Filter.accepts (some unsigned) (.object anonymous) = true := by decide +kernel
  have hnulls := (Filter.accepts_up_to_nulls (some unsigned) anonymous ["author", "editor"]).1
    (by simp [anonymous, Fields.get?])
  have hlacking := (Filter.accepts_up_to_nulls (some unsigned) anonymous ["draft"]).2
    (by decide +kernel)
  exact ⟨hnulls.trans hpasses, hlacking.trans hpasses⟩

end Notes

end LiveQuery
