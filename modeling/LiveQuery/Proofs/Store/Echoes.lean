import LiveQuery.Proofs.Service.Repetition
import LiveQuery.Proofs.Store.Delivery

/-!
# Echoes

The result of a mutation is applied at once, and the backend reports the same change as an event.
The echo is absorbed: no query and no membership changes, and the entities stay as they are, unless
the change has taken its item out of the last result (`Run.echo_absorbed`). The entity that has
been dropped then comes back with the echo, and nothing shows it (`Notes.echo_brings_back`).
-/

namespace LiveQuery

namespace Store

variable {setup : Setup} {s : Store}

theorem query?_apply (service : String) (changes : List Change) (query : QueryId) :
    (s.apply setup service changes).1.query? query =
      (s.homes.get? query).bind fun home =>
        ((s.apply setup service changes).1.service home).queries.get? query := by
  rw [query?_eq, homes_apply]

end Store

variable {setup : Setup} {history : List Happening} {w : World}

/-- When a change is applied again, right after it has been applied, every query and every
membership stays as it is. So do the entities, unless the change has dropped its own: that one is
cached again, and no other changes. -/
theorem Run.echo_absorbed (run : Run setup history w)
    (stale : setup.conventions.isStale = Item.isStale) (service : String)
    (earlier : List Change) (change : Change) :
    let before := (w.store.apply setup service earlier).1
    let once := (before.apply setup service [change]).1
    let twice := (once.apply setup service [change]).1
    (∀ query, twice.query? query = once.query? query) ∧
    (∀ name, (twice.service name).queries = (once.service name).queries ∧
      (twice.service name).index = (once.service name).index) ∧
    (∀ name, (name = service →
        ∀ id, ¬(before.service service).Drops setup.conventions change id) →
      (twice.service name).entities = (once.service name).entities) ∧
    ∀ id, (before.service service).Drops setup.conventions change id →
      (once.service service).entities.get? id = none ∧
        (twice.service service).entities =
          (once.service service).entities.insert id change.item := by
  intro before once twice
  have hmirror : (before.service service).Mirror setup.conventions := by
    have hbefore : before.service = _ := Store.service_apply earlier
    rw [hbefore, Function.update_self]
    exact (run.mirror service).mergeAll earlier
  have honce : once.service = Function.update before.service service _ :=
    Store.service_apply [change]
  have htwice : twice.service = Function.update once.service service _ :=
    Store.service_apply [change]
  obtain ⟨hqueries, hindex, hkept, hdropped⟩ := hmirror.mergeAll_again stale change
  have hservice : ∀ name, (twice.service name).queries = (once.service name).queries ∧
      (twice.service name).index = (once.service name).index := by
    intro name
    by_cases hname : name = service
    · subst hname
      rw [htwice, Function.update_self, honce, Function.update_self]
      exact ⟨hqueries, hindex⟩
    · rw [htwice, Function.update_of_ne hname]
      exact ⟨rfl, rfl⟩
  refine ⟨?_, hservice, ?_, ?_⟩
  · intro query
    rw [Store.query?_apply, Store.query?_eq]
    exact congrArg _ (funext fun home => by rw [(hservice home).1])
  · intro name hnone
    by_cases hname : name = service
    · subst hname
      rw [htwice, Function.update_self, honce, Function.update_self]
      exact hkept (hnone rfl)
    · rw [htwice, Function.update_of_ne hname]
  · intro id hdrops
    rw [htwice, Function.update_self, honce, Function.update_self]
    exact hdropped id hdrops

namespace Notes

/-- The first note is still an idea, and the echo of its update changes nothing. -/
theorem refinement_absorbed :
    let before := (opened.store.apply {} "notes" []).1
    let once := (before.apply {} "notes" [refined]).1
    let twice := (once.apply {} "notes" [refined]).1
    (∃ history, Run {} history opened) ∧
      ((once.service "notes").entities.get? (.int 1)).bind Item.time? = some 200 ∧
      twice.query? ideas.id = once.query? ideas.id ∧
      (twice.service "notes").entities = (once.service "notes").entities := by
  intro before once twice
  obtain ⟨history, hrun⟩ := run_opened
  obtain ⟨hquery, -, hkept, -⟩ := Run.echo_absorbed hrun rfl "notes" [] refined
  refine ⟨⟨history, hrun⟩, by decide +kernel, hquery ideas.id, hkept "notes" ?_⟩
  intro _ id hdrops
  obtain rfl : ItemId.int 1 = id := Option.some.inj (Eq.trans (by decide +kernel) hdrops.named)
  exact absurd hdrops.releases.ended (by decide +kernel)

/-- The first note is no idea any more and has been dropped. The echo of its update brings it
back. -/
theorem echo_brings_back :
    let once := (opened.store.apply {} "notes" [done]).1
    let twice := (once.apply {} "notes" [done]).1
    (∃ history, Run {} history opened) ∧
      (once.service "notes").entities.get? (.int 1) = none ∧
      ((twice.service "notes").entities.get? (.int 1)).bind Item.time? = some 300 ∧
      (twice.service "notes").entities ≠ (once.service "notes").entities := by
  intro once twice
  have hdropped : (once.service "notes").entities.get? (.int 1) = none :=
    Option.isNone_iff_eq_none.mp (by decide +kernel)
  have hback : ((twice.service "notes").entities.get? (.int 1)).bind Item.time? = some 300 := by
    decide +kernel
  refine ⟨run_opened, hdropped, hback, ?_⟩
  intro hsame
  rw [hsame, hdropped] at hback
  cases hback

end Notes

end LiveQuery
