import LiveQuery.Proofs.Service.Exchange
import LiveQuery.Proofs.Store.Delivery

/-!
# Events in either order

Changes of two items of a service come out the same in either order, in every state that a store can
be in. Only where both items join a list does their order show, since each goes to the end
(`Run.changes_commute`).
-/

namespace LiveQuery

variable {setup : Setup} {history : List Happening} {w : World}

namespace Notes

theorem countsTotal_standard : Conventions.standard.CountsTotal :=
  ⟨fun _ => rfl, fun _ => rfl⟩

def another : Change := ⟨.created, note 2 300 "idea"⟩

def third : Change := ⟨.created, note 3 300 "idea"⟩

/-- Of two ideas that come, the first one stands first. -/
example :
    let ids (changes : List Change) :=
      (((opened.store.service "notes").mergeAll Conventions.standard changes).service.queries.get?
        ideas.id).map fun q => Service.idsOf Conventions.standard q.state.shown
    ids [another, third] = some [.int 1, .int 2, .int 3] ∧
      ids [third, another] = some [.int 1, .int 3, .int 2] := by
  decide +kernel

/-- The first fetch of the ideas reports the largest total there is. -/
def brimming : World := handed.play {}
  [.answered ideas.id 1 (.ok (.list [note 1 100 "idea"], [("total", .int 0x7fffffffffffffff)]))]

end Notes

end LiveQuery
