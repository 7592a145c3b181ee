import LiveQuery.Proofs.Service.Rejection
import LiveQuery.Proofs.Store.Transitions
import LiveQuery.Session.Run

/-!
# Rejected input

A change that is rejected when its turn comes might as well not have been in its batch: the world
goes on exactly as without it. A batch that is rejected as a whole changes nothing that is cached,
calls nobody and fetches nothing, and the same is true of a mutation that the backend refuses
(`rejected_without_effect`).
-/

namespace LiveQuery

namespace Store

variable {setup : Setup} {s : Store} {name : String} {changes : List Change}

theorem apply_sifted :
    s.apply setup name ((s.service name).sifted setup.conventions changes) =
      s.apply setup name changes := by
  unfold apply
  rw [Service.mergeAll_sifted]

theorem apply_of_sifted_eq_nil (none : (s.service name).sifted setup.conventions changes = []) :
    s.apply setup name changes = (s.setService name (s.service name), []) := by
  rw [← apply_sifted, none]
  rfl

theorem service_setService_self : (s.setService name (s.service name)).service = s.service :=
  (service_setService name _).trans (Function.update_eq_self name s.service)

theorem query?_setService_self (query : QueryId) :
    (s.setService name (s.service name)).query? query = s.query? query := by
  rw [query?_eq, query?_eq, service_setService_self]
  rfl

end Store

/-- The world in which changes of a service are to be applied before the rest is done. -/
def World.facing (w : World) (name : String) (changes : List Change) (rest : List Turn) : World :=
  { w with agenda := .work (.apply name changes) :: rest }

theorem World.act?_facing (setup : Setup) (w : World) (name : String) (changes : List Change)
    (rest : List Turn) : (w.facing name changes rest).act? setup .goOn =
      some (World.proceed { w with agenda := rest } (w.store.apply setup name changes), none) :=
  rfl

/-- Has a session only asked its backend for mutations? -/
def Session.OnlyMutates (s t : Session) : Prop :=
  ∃ backend calls, t = { s with backend, calls := s.calls ++ calls } ∧
    ∀ call ∈ calls, ∃ mutation, call = .mutate mutation

theorem Session.onlyMutates_refl (s : Session) : s.OnlyMutates s :=
  ⟨s.backend, [], by rw [List.append_nil], by simp⟩

theorem Session.mutate_of_failed {s : Session} {service method : String} {args : List Json}
    {failure : Failure} (fails : (s.mutate service method args).2 = .failed failure) :
    s.OnlyMutates (s.mutate service method args).1 := by
  unfold Session.mutate at fails ⊢
  split
  · exact s.onlyMutates_refl
  · next m hm =>
    rw [hm] at fails
    dsimp only at fails ⊢
    split
    · exact ⟨_, _, rfl, fun call hcall => ⟨_, List.mem_singleton.mp hcall⟩⟩
    · next item hitem =>
      rw [hitem] at fails
      cases fails

theorem Session.start_mutate (s : Session) (service method : String) (args : List Json) :
    s.start (.mutate service method args) =
      if s.held then ((s.mutate service method args).1, fun _ => (s.mutate service method args).2)
      else (s, fun _ => .refused .storeDropped) := rfl

theorem Session.start_mutate_of_failed {s t : Session} {service method : String}
    {args : List Json} {failure : Failure}
    (fails : (s.start (.mutate service method args)).2 t = .failed failure) :
    s.OnlyMutates (s.start (.mutate service method args)).1 := by
  rw [Session.start_mutate] at fails ⊢
  split
  · next hheld =>
    rw [if_pos hheld] at fails
    exact Session.mutate_of_failed fails
  · exact s.onlyMutates_refl

/-- Without the changes that are rejected when their turn comes, a batch does the same: to the
service, in the queries it touches, and in what the world has to do and asks for then. If all of
its changes are rejected, every service and every query is as it was, and nothing is left to do.
The same is true of a mutation that fails. -/
theorem rejected_without_effect (setup : Setup) (name : String) :
    (∀ (w : World) (changes : List Change) (rest : List Turn),
      let service := w.store.service name
      let kept := service.sifted setup.conventions changes
      service.mergeAll setup.conventions kept = service.mergeAll setup.conventions changes ∧
      (w.facing name kept rest).act? setup .goOn =
        (w.facing name changes rest).act? setup .goOn ∧
      ((∀ early change late, changes = early ++ change :: late →
          (service.mergeAll setup.conventions early).service.Rejects setup.conventions change) →
        ∃ w', (w.facing name changes rest).act? setup .goOn = some (w', none) ∧
          w'.agenda = rest ∧ w'.requests = w.requests ∧ w'.timers = w.timers ∧
          w'.store.registry = w.store.registry ∧ w'.store.transitions = w.store.transitions ∧
          (∀ n, w'.store.service n = w.store.service n) ∧
          ∀ query, w'.store.query? query = w.store.query? query)) ∧
    ∀ (s t : Session) (method : String) (args : List Json) (failure : Failure),
      (s.start (.mutate name method args)).2 t = .failed failure →
        s.OnlyMutates (s.start (.mutate name method args)).1 := by
  refine ⟨fun w changes rest => ⟨Service.mergeAll_sifted changes, ?_, fun rejected => ?_⟩,
    fun s t method args failure => Session.start_mutate_of_failed⟩
  · rw [World.act?_facing, World.act?_facing, Store.apply_sifted]
  · have hnone := Service.sifted_eq_nil.mpr rejected
    refine ⟨_, World.act?_facing setup w name changes rest, ?_⟩
    rw [Store.apply_of_sifted_eq_nil hnone]
    exact ⟨rfl, rfl, rfl, rfl, rfl, fun n => congrFun Store.service_setService_self n,
      Store.query?_setService_self⟩

namespace Notes

/-- The second note arrives among changes that come to nothing: two are late, one of them only by
the second note itself, and one has no id. -/
def latecomers : List Change :=
  [⟨.updated, note 1 50 "todo"⟩, ⟨.created, note 2 300 "idea"⟩, ⟨.patched, note 2 200 "todo"⟩,
    ⟨.created, .object [("tag", .string "idea")]⟩]

/-- Only the second note is left of the changes. The late change of the first note does nothing
by itself, and neither does a mutation on a service that the backend does not know. -/
theorem second_note_alone :
    let kept := (opened.store.service "notes").sifted Conventions.standard latecomers
    let late := [⟨.updated, note 1 50 "todo"⟩]
    let s : Session := {}
    (kept.map fun change => (change.kind, Item.id? change.item)) = [(.created, some (.int 2))] ∧
      (opened.facing "notes" kept []).act? {} .goOn =
        (opened.facing "notes" latecomers []).act? {} .goOn ∧
      (∃ w', (opened.facing "notes" late []).act? {} .goOn = some (w', none) ∧ w'.agenda = [] ∧
        w'.store.query? ideas.id = opened.store.query? ideas.id) ∧
      s.OnlyMutates (s.start (.mutate "notes" "remove" [Json.int 1])).1 := by
  intro kept late s
  obtain ⟨hworld, hsession⟩ := rejected_without_effect {} "notes"
  obtain ⟨-, hkept, -⟩ := hworld opened latecomers []
  obtain ⟨-, -, hlate⟩ := hworld opened late []
  have hrejected : (opened.store.service "notes").sifted Conventions.standard late = [] :=
    List.isEmpty_iff.mp (by decide +kernel)
  obtain ⟨w', hact, hagenda, -, -, -, -, -, hqueries⟩ :=
    hlate (Service.sifted_eq_nil.mp hrejected)
  exact ⟨by decide +kernel, hkept, ⟨w', hact, hagenda, hqueries ideas.id⟩,
    hsession s s "remove" _ (.unknownService "notes") rfl⟩

end Notes

end LiveQuery
