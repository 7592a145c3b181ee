import LiveQuery.Item
import LiveQuery.Proofs.Json.Integers

/-!
# Which integers make an item stale

Items are often marked with the time of their last change, as an integer. Marks are compared as
doubles, so an incoming item is stale exactly if its mark is smaller once both are rounded to the
nearest double (`Item.isStale_eq_of_marks`). A stale item is older, then, whatever the marks. The
converse holds as long as rounding does not make the marks equal: if one of them lies within
`2 ^ 53`, or if they are further apart than doubles of their size (`Item.isStale_of_marks`). Times
in nanoseconds are beyond that, and there an item that is older by less than the spacing may count
as new (`Notes.hundred_nanoseconds_lost`).
-/

namespace LiveQuery

namespace Item

open Binary64 (nearestInt spacing)

/-- Two items, one of them cached, are marked with integers: in the field `updatedAt`, or in
`updated_at` where neither has the former. -/
inductive Marks (cached incoming : Json) (old new : Int) : Prop
  | updatedAt (hold : cached.get? "updatedAt" = some (.int old))
      (hnew : incoming.get? "updatedAt" = some (.int new)) : Marks cached incoming old new
  | updated_at (cachedLacks : cached.get? "updatedAt" = none)
      (incomingLacks : incoming.get? "updatedAt" = none)
      (hold : cached.get? "updated_at" = some (.int old))
      (hnew : incoming.get? "updated_at" = some (.int new)) : Marks cached incoming old new

variable {cached incoming : Json} {old new : Int} {field : String} {fields : List String}

theorem isStaleBy_of_marked (hold : cached.get? field = some (.int old))
    (hnew : incoming.get? field = some (.int new)) :
    isStaleBy (field :: fields) cached incoming = decide (nearestInt new < nearestInt old) := by
  have hstale : isStaleBy (field :: fields) cached incoming =
      ((Binary64.ofInt new).compare (Binary64.ofInt old) == .lt) := by
    unfold isStaleBy
    rw [hold, hnew]
    rfl
  rw [hstale, Binary64.compare_ofInt_eq]
  by_cases hlt : nearestInt new < nearestInt old
  · rw [compare_lt_iff_lt.mpr hlt, decide_eq_true hlt]
    rfl
  · rw [decide_eq_false hlt]
    exact beq_eq_false_iff_ne.mpr fun hc => hlt (compare_lt_iff_lt.mp hc)

theorem isStale_eq_of_marks (marks : Marks cached incoming old new) :
    isStale cached incoming = decide (nearestInt new < nearestInt old) := by
  unfold isStale
  cases marks with
  | updatedAt hold hnew => exact isStaleBy_of_marked hold hnew
  | updated_at cachedLacks incomingLacks hold hnew =>
    unfold isStaleBy
    rw [cachedLacks]
    exact isStaleBy_of_marked hold hnew

/-- **Staleness goes by the nearest doubles of the marks.** So a stale item is older, and an older
item is stale if either mark lies within `2 ^ 53`, or if they are further apart than the spacing
of the doubles there, which is at most 2048 among integers of 64 bits. -/
theorem isStale_of_marks (marks : Marks cached incoming old new) :
    (isStale cached incoming = true ↔ nearestInt new < nearestInt old) ∧
    (isStale cached incoming = true → new < old) ∧
    (new < old → new.natAbs < 2 ^ 53 ∨ old.natAbs < 2 ^ 53 → isStale cached incoming = true) ∧
    (new + spacing (max new.natAbs old.natAbs) < old → isStale cached incoming = true) ∧
    (-2 ^ 63 ≤ new → old < 2 ^ 64 → new + 2048 < old → isStale cached incoming = true) := by
  have hstale : isStale cached incoming = true ↔ nearestInt new < nearestInt old := by
    rw [isStale_eq_of_marks marks, decide_eq_true_iff]
  rw [hstale]
  refine ⟨Iff.rfl, fun hlt => ?_, Binary64.nearestInt_lt_of_small, Binary64.nearestInt_lt_of_apart,
    fun hlow hhigh hapart => Binary64.nearestInt_lt_of_apart ?_⟩
  · exact Int.not_le.mp fun hle => Int.not_le.mpr hlt (Binary64.nearestInt_mono hle)
  · have hspacing := Binary64.spacing_le (show max new.natAbs old.natAbs < 2 ^ 64 by omega)
    omega

end Item

namespace Notes

/-- A note that was changed so many nanoseconds after some moment. -/
def changedAfter (field : String) (nanoseconds : Int) : Json :=
  .object [("id", .int 1), (field, .int (1700000000000000000 + nanoseconds))]

/-- A note that is older by three hundred nanoseconds is stale. -/
theorem three_hundred_nanoseconds_seen :
    Item.Marks (changedAfter "updated_at" 300) (changedAfter "updated_at" 0)
      1700000000000000300 1700000000000000000 ∧
    Item.isStale (changedAfter "updated_at" 300) (changedAfter "updated_at" 0) = true := by
  have hmarks : Item.Marks (changedAfter "updated_at" 300) (changedAfter "updated_at" 0)
      1700000000000000300 1700000000000000000 := .updated_at rfl rfl rfl rfl
  exact ⟨hmarks, (Item.isStale_of_marks hmarks).2.2.2.1 (by decide +kernel)⟩

/-- A note that is older by one hundred nanoseconds is not. -/
theorem hundred_nanoseconds_lost :
    Item.Marks (changedAfter "updatedAt" 100) (changedAfter "updatedAt" 0)
      1700000000000000100 1700000000000000000 ∧
    (1700000000000000000 : Int) < 1700000000000000100 ∧
    Item.isStale (changedAfter "updatedAt" 100) (changedAfter "updatedAt" 0) = false :=
  ⟨.updatedAt rfl rfl, by decide, by decide +kernel⟩

end Notes

end LiveQuery
