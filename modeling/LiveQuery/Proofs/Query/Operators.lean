import LiveQuery.Filter
import LiveQuery.Proofs.Json.Order

/-!
# How the operators of filters fit together

Each operator is given by itself, and each has a place for missing fields, for `null` and for arrays
of its own. `Filter.Coherent` says which of them are opposites and how they add up, for any field of
any item: `$ne` and `$nin` deny `$eq` and `$in`, `$in` is `$eq` for some candidate, and the four
bounds are those of the order of values, as long as there is something to compare.
-/

namespace LiveQuery

namespace Filter

/-- Does an operator with its operand hold of the field at a path of an item? -/
def asks (item : Json) (path name : String) (operand : Json) : Bool :=
  fieldHolds (item.field? path) (.object [(name, operand)])

variable {item : Json} {path name : String} {op : Operator} {operand : Json}
variable {value bound : Json} {candidates : List Json}

theorem asks_eq (named : Operator.ofName? name = some op)
    (dollar : name.toList.head? = some '$') :
    asks item path name operand = op.holds (item.field? path) operand := by
  simp [asks, fieldHolds, Json.members?, areOperators, named, dollar]

theorem asks_eq_eq : asks item path "$eq" operand = ((item.field? path).getD .null == operand) :=
  asks_eq (rfl : Operator.ofName? "$eq" = some .eq) rfl

theorem asks_ne : asks item path "$ne" operand = !((item.field? path).getD .null == operand) :=
  asks_eq (rfl : Operator.ofName? "$ne" = some .ne) rfl

theorem asks_in : asks item path "$in" (.array candidates) =
    amongCandidates ((item.field? path).getD .null) candidates :=
  asks_eq (rfl : Operator.ofName? "$in" = some .oneOf) rfl

theorem asks_nin : asks item path "$nin" (.array candidates) =
    !amongCandidates ((item.field? path).getD .null) candidates :=
  asks_eq (rfl : Operator.ofName? "$nin" = some .noneOf) rfl

theorem asks_lt : asks item path "$lt" operand =
    ordered ((item.field? path).getD .null) operand (· == .lt) :=
  asks_eq (rfl : Operator.ofName? "$lt" = some .lt) rfl

theorem asks_lte : asks item path "$lte" operand =
    ordered ((item.field? path).getD .null) operand (· != .gt) :=
  asks_eq (rfl : Operator.ofName? "$lte" = some .lte) rfl

theorem asks_gt : asks item path "$gt" operand =
    ordered ((item.field? path).getD .null) operand (· == .gt) :=
  asks_eq (rfl : Operator.ofName? "$gt" = some .gt) rfl

theorem asks_gte : asks item path "$gte" operand =
    ordered ((item.field? path).getD .null) operand (· != .lt) :=
  asks_eq (rfl : Operator.ofName? "$gte" = some .gte) rfl

/-- A filter of one condition on a field accepts what the condition holds of. -/
theorem accepts_eq_asks (field : path ∉ ["$or", "$and"] ++ shapingNames) :
    accepts (some (.object [(path, .object [(name, operand)])])) item =
      asks item path name operand := by
  simp only [List.mem_append, List.mem_cons, List.not_mem_nil, or_false, not_or] at field
  simp [accepts, allHold, memberHolds, field, asks]

/-! ## Bounds -/

theorem ordered_eq_false {accept : Ordering → Bool}
    (null : value.isNull = true ∨ operand.isNull = true) :
    ordered value operand accept = false := by
  rcases null with h | h <;> simp [ordered, h]

theorem ordered_eq_not {accept accept' : Ordering → Bool} (valued : value.isNull = false)
    (bounded : operand.isNull = false) (denies : ∀ o, accept o = !accept' o) :
    ordered value operand accept = !ordered value operand accept' := by
  simp [ordered, valued, bounded, denies]

theorem ordered_chain (below : ordered value operand (· == .lt) = true)
    (le : ordered operand bound (· != .gt) = true) : ordered value bound (· == .lt) = true := by
  simp only [ordered, Bool.and_eq_true, Bool.not_eq_true', beq_iff_eq, bne_iff_ne] at below le ⊢
  refine ⟨⟨below.1.1, le.1.2⟩, ?_⟩
  exact Std.TransCmp.lt_of_lt_of_isLE below.2 (Ordering.isLE_iff_ne_gt.mpr le.2)

/-! ## All operators -/

/-- The operators fit together on a field of an item. -/
structure Coherent (item : Json) (path : String) : Prop where
  ne : ∀ operand, asks item path "$ne" operand = !asks item path "$eq" operand
  noneOf : ∀ candidates, asks item path "$nin" (.array candidates) =
    !asks item path "$in" (.array candidates)
  /-- A field that is no array is among candidates if it is one of them. -/
  oneOf : (∀ values, item.field? path ≠ some (.array values)) → ∀ candidates,
    asks item path "$in" (.array candidates) = candidates.any fun c => asks item path "$eq" c
  lte : ∀ value operand, item.field? path = some value → value.isNull = false →
    operand.isNull = false → asks item path "$lte" operand = !asks item path "$gt" operand
  gte : ∀ value operand, item.field? path = some value → value.isNull = false →
    operand.isNull = false → asks item path "$gte" operand = !asks item path "$lt" operand
  apart : ∀ operand, ¬(asks item path "$lt" operand = true ∧ asks item path "$gt" operand = true)
  /-- What is below a value that has a bound has the bound. -/
  chain : ∀ (middle bound other : Json) (otherPath : String),
    other.field? otherPath = some middle → asks item path "$lt" middle = true →
    asks other otherPath "$lte" bound = true → asks item path "$lt" bound = true
  /-- Nothing bounds a field that is missing or `null`, and `null` bounds nothing. -/
  null : ∀ operand, ((item.field? path).getD .null).isNull = true ∨ operand.isNull = true →
    ∀ name ∈ ["$lt", "$lte", "$gt", "$gte"], asks item path name operand = false

theorem coherent (item : Json) (path : String) : Coherent item path := by
  refine ⟨fun operand => ?_, fun candidates => ?_, fun single candidates => ?_,
    fun value operand found valued bounded => ?_, fun value operand found valued bounded => ?_,
    fun operand => ?_, fun middle bound other otherPath found below le => ?_,
    fun operand null name mem => ?_⟩
  · rw [asks_ne, asks_eq_eq]
  · rw [asks_nin, asks_in]
  · rw [asks_in]
    simp only [asks_eq_eq]
    cases hvalue : (item.field? path).getD .null with
    | array values =>
      cases hfield : item.field? path with
      | none => rw [hfield] at hvalue; cases hvalue
      | some value =>
        rw [hfield] at hvalue
        exact absurd (hfield.trans (congrArg some hvalue)) (single values)
    | null | bool | number | string | object => rfl
  · rw [asks_lte, asks_gt, found]
    exact ordered_eq_not valued bounded fun o => rfl
  · rw [asks_gte, asks_lt, found]
    exact ordered_eq_not valued bounded fun o => rfl
  · rw [asks_lt, asks_gt]
    rintro ⟨hbelow, habove⟩
    simp only [ordered, Bool.and_eq_true, beq_iff_eq] at hbelow habove
    rw [hbelow.2] at habove
    cases habove.2
  · rw [asks_lt] at below ⊢
    rw [asks_lte, found] at le
    exact ordered_chain below le
  · simp only [List.mem_cons, List.not_mem_nil, or_false] at mem
    rcases mem with rfl | rfl | rfl | rfl
    · exact asks_lt.trans (ordered_eq_false null)
    · exact asks_lte.trans (ordered_eq_false null)
    · exact asks_gt.trans (ordered_eq_false null)
    · exact asks_gte.trans (ordered_eq_false null)

/-- The order of values is a total preorder: it is reflexive, read backwards it is reversed, and it
is transitive, strictly and not. So the operators of filters fit together on every field of every
item. -/
theorem order_and_operators_cohere :
    (∀ a : Json, a.compare a = .eq) ∧ (∀ a b : Json, b.compare a = (a.compare b).swap) ∧
      (∀ a b c : Json, a.compare b ≠ .gt → b.compare c ≠ .gt → a.compare c ≠ .gt) ∧
      (∀ a b c : Json, a.compare b = .lt → b.compare c = .lt → a.compare c = .lt) ∧
      (∀ a b c : Json, a.compare b = .eq → b.compare c = .eq → a.compare c = .eq) ∧
      ∀ (item : Json) (path : String), Coherent item path := by
  refine ⟨fun a => Std.ReflCmp.compare_self, fun a b => Std.OrientedCmp.eq_swap,
    fun a b c hab hbc => ?_, fun a b c => Std.TransCmp.lt_trans, fun a b c => Std.TransCmp.eq_trans,
    coherent⟩
  exact Ordering.isLE_iff_ne_gt.mp (Std.TransCmp.isLE_trans
    (Ordering.isLE_iff_ne_gt.mpr hab) (Ordering.isLE_iff_ne_gt.mpr hbc))

end Filter

namespace Notes

def ranked (priority : Int) : Json := .object [("priority", .int priority)]

def bound : Json := .number (.float (Binary64.ofDecimal false 75 (-1)))

/-- A priority of five is below seven, seven is at most seven and a half, and so five is below that.
It is not at least that. -/
theorem five_below_bound :
    (Json.int 5).compare bound = .lt ∧ Filter.asks (ranked 5) "priority" "$lt" bound = true ∧
      Filter.asks (ranked 5) "priority" "$gte" bound = false := by
  obtain ⟨-, -, -, htrans, -, hcoherent⟩ := Filter.order_and_operators_cohere
  have hcompare : (Json.int 5).compare bound = .lt :=
    htrans _ (Json.int 7) _ (by decide +kernel) (by decide +kernel)
  have hbelow : Filter.asks (ranked 5) "priority" "$lt" bound = true :=
    (hcoherent (ranked 5) "priority").chain (Json.int 7) bound (ranked 7) "priority" rfl
      (by decide +kernel) (by decide +kernel)
  have hgte := (hcoherent (ranked 5) "priority").gte (Json.int 5) bound rfl rfl rfl
  rw [hbelow] at hgte
  exact ⟨hcompare, hbelow, hgte⟩

end Notes

end LiveQuery
