import LiveQuery.Proofs.Store.Transitions

/-!
# Where queries live

A store looks a query up twice: first the service it lives in, then the query there. The two agree
after whatever has happened, and a query lives under the id that its descriptor and its
configuration have. Nobody loses a query by leaving it as long as somebody else listens, and asking
for a query that lives already changes nothing (`Run.homes_agree`).
-/

namespace LiveQuery

namespace Cache

variable {setup : Setup} {c c' : Cache} {move : Move}

/-- Does every query live under its own id? -/
def Keyed (c : Cache) : Prop :=
  ∀ {name query q}, c.find? name query = some q → query = QueryId.ofQuery q.descriptor q.config

/-- A query is born under the id of its reference, and its life never changes. -/
theorem Keyed.step (lives : c.Lives) (h : c.Keyed) (hstep : Step setup c move c') : c'.Keyed := by
  intro name query p hp
  rcases hstep.born_or_life lives hp with ⟨ref, rfl, rfl⟩ | ⟨q, hq, hlife⟩
  · cases hstep
    rcases find?_adopt.mp hp with ⟨-, rfl, -⟩ | ⟨-, hp⟩
    · exact ref.id_eq
    · exact h hp
  · rw [h hq, show q.descriptor = p.descriptor from congrArg Life.descriptor hlife,
      show q.config = p.config from congrArg Life.config hlife]

end Cache

theorem Run.keyed {setup : Setup} {history : List Happening} {w : World}
    (run : Run setup history w) : w.cache.Keyed :=
  run.cache_induction (P := Cache.Keyed) (fun hq => by cases hq)
    fun lives h hstep => h.step lives hstep

namespace Store

variable {setup : Setup} {s : Store} {query : QueryId}

theorem query?_retired {home : String} {service : Service} {touched : List QueryId} {x : QueryId}
    (queries : service.queries.get? x = (s.service home).queries.get? x) (other : x ≠ query) :
    ({ s.setService home service with
        homes := s.homes.erase query }.notify touched).1.query? x = s.query? x := by
  have hservice : ({ s.setService home service with
      homes := s.homes.erase query }.notify touched).1.service =
        Function.update s.service home service := service_setService home service
  rw [query?_eq, query?_eq, hservice]
  show ((s.homes.erase query).get? x).bind _ = _
  rw [Table.get?_erase, if_neg (Ne.symm other)]
  refine Option.bind_congr fun n _ => ?_
  by_cases hn : n = home
  · subst hn
    rw [Function.update_self, queries]
  · rw [Function.update_of_ne hn]

theorem query?_unsubscribe_of_ne {listener : ListenerId} {vacuum : Option Bool} {x : QueryId}
    (other : x ≠ query) :
    (s.unsubscribe setup query listener vacuum).1.query? x = s.query? x := by
  unfold unsubscribe
  dsimp only
  split
  · rfl
  split
  · rfl
  next home _ =>
  split
  · split
    · next service hvacuum =>
      have hqueries : service.queries.get? x = (s.service home).queries.get? x :=
        (Service.get?_queries_vacuum hvacuum).trans (if_neg (Ne.symm other))
      exact query?_retired hqueries other
    · rfl
  · rfl

theorem query?_unsubscribe {listener : ListenerId} {vacuum : Option Bool} {x : QueryId}
    (listened : (s.unsubscribe setup query listener vacuum).1.hasListener x = true) :
    (s.unsubscribe setup query listener vacuum).1.query? x = s.query? x := by
  by_cases hx : x = query
  · subst hx
    exact query?_unsubscribe_of_listened listened x
  · exact query?_unsubscribe_of_ne hx

theorem materialize_of_living (ref : QueryRef) (lives : (s.query? ref.id).isSome = true) :
    s.materialize setup ref =
      (s, if ref.config.realtime = .disabled then [] else [.bind ref.descriptor.service]) := by
  simp only [materialize, lives, if_true]

end Store

namespace World

variable {setup : Setup} {w : World}

theorem act?_materialize_of_living {ref : QueryRef} (isOpen : w.isOpen = true)
    (lives : (w.store.query? ref.id).isSome = true) :
    w.act? setup (.materialize ref) =
      some (w.proceed (w.store, if ref.config.realtime = .disabled then []
        else [.bind ref.descriptor.service]), none) := by
  rw [act?, if_pos isOpen, Store.materialize_of_living ref lives]

theorem act?_bind_of_bound {name : String} (bound : name ∈ w.store.bound) :
    (w.proceed (w.store, [.bind name])).act? setup .goOn = some (w, none) := by
  simp only [act?, proceed, List.map_cons, List.map_nil, List.cons_append, List.nil_append,
    Store.run, if_pos bound, Option.map_none, Option.getD_none]

theorem act?_bind_of_free {name : String} (free : name ∉ w.store.bound) :
    (w.proceed (w.store, [.bind name])).act? setup .goOn =
      some ((w.proceed (w.store, [.keepBinding name])).asked (.bind name), some (.bind name)) := by
  simp only [act?, proceed, List.map_cons, List.map_nil, List.cons_append, List.nil_append,
    Store.run, if_neg free, Option.map_some, Option.getD_some]

end World

variable {setup : Setup} {history : List Happening} {w : World}

/-- A query lives in a service exactly if the service holds it, in no other, and under the id that
its descriptor and its configuration have, in the service that its descriptor names. As long as
somebody listens to it, nobody who leaves takes it away. To ask for a query that lives already
plans nothing but that its service be bound, which does nothing if it is. -/
theorem Run.homes_agree (run : Run setup history w) :
    (∀ query name, w.store.homes.get? query = some name ↔
      (w.store.service name).queries.contains query = true) ∧
    (∀ query name other, (w.store.service name).queries.contains query = true →
      (w.store.service other).queries.contains query = true → name = other) ∧
    (∀ name query q, (w.store.service name).queries.get? query = some q →
      query = QueryId.ofQuery q.descriptor q.config ∧ q.descriptor.service = name) ∧
    (∀ query listener vacuum x,
      (w.store.unsubscribe setup query listener vacuum).1.hasListener x = true →
        (w.store.unsubscribe setup query listener vacuum).1.query? x = w.store.query? x) ∧
    ∀ ref, (w.store.query? ref.id).isSome = true → w.isOpen = true →
      (ref.config.realtime = .disabled → w.act? setup (.materialize ref) = some (w, none)) ∧
      (ref.config.realtime ≠ .disabled → ∃ again,
        w.act? setup (.materialize ref) = some (again, none) ∧
        again.store = w.store ∧ again.requests = w.requests ∧
        again.agenda = .work (.bind ref.descriptor.service) :: w.agenda ∧
        (ref.descriptor.service ∈ w.store.bound → again.act? setup .goOn = some (w, none)) ∧
        (ref.descriptor.service ∉ w.store.bound → ∃ binding,
          again.act? setup .goOn = some (binding, some (.bind ref.descriptor.service)) ∧
          binding.store = w.store)) := by
  have hlives := run.lives
  have hhome : ∀ query name, w.store.homes.get? query = some name ↔
      (w.store.service name).queries.contains query = true := by
    intro query name
    rw [Table.contains_eq_true]
    exact ⟨hlives.found, fun ⟨_, hq⟩ => hlives.home hq⟩
  refine ⟨hhome, ?_, ?_, fun _ _ _ _ => Store.query?_unsubscribe, ?_⟩
  · intro query name other hname hother
    have hboth := ((hhome query name).mpr hname).symm.trans ((hhome query other).mpr hother)
    exact Option.some.inj hboth
  · intro name query q hq
    exact ⟨run.keyed hq, hlives.named hq⟩
  · intro ref hpresent hopen
    have hact : w.act? setup (.materialize ref) = _ :=
      World.act?_materialize_of_living hopen hpresent
    constructor
    · intro hdisabled
      rwa [if_pos hdisabled] at hact
    · intro hfollows
      rw [if_neg hfollows] at hact
      exact ⟨_, hact, rfl, rfl, rfl, World.act?_bind_of_bound,
        fun hfree => ⟨_, World.act?_bind_of_free hfree, rfl⟩⟩

namespace Notes

/-- The ideas live in the notes, and keep living when one of two listeners goes who wants them
gone. Asking for them once more changes nothing. -/
theorem ideas_at_home :
    let shared := opened.play {} [.subscribe ideas.id]
    let left := (shared.store.unsubscribe {} ideas.id ⟨1⟩ (some true)).1
    opened.store.homes.get? ideas.id = some "notes" ∧
      (∃ q, (opened.store.service "notes").queries.get? ideas.id = some q ∧
        ideas.id = QueryId.ofQuery q.descriptor q.config) ∧
      left.listeners.length = 1 ∧ left.query? ideas.id = shared.store.query? ideas.id ∧
      opened.play {} [.materialize ideas, .goOn] = opened := by
  intro shared left
  obtain ⟨history, hrun⟩ := run_opened
  obtain ⟨hhome, -, hkeyed, -, hagain⟩ := hrun.homes_agree
  obtain ⟨-, -, -, hleft, -⟩ := (hrun.play [.subscribe ideas.id]).homes_agree
  have hcontains : (opened.store.service "notes").queries.contains ideas.id = true := by
    decide +kernel
  obtain ⟨q, hq⟩ := Table.contains_eq_true.mp hcontains
  obtain ⟨-, hfollows⟩ := hagain ideas (by decide +kernel) (by decide +kernel)
  obtain ⟨again, hact, -, -, -, hbound, -⟩ := hfollows (by decide +kernel)
  refine ⟨(hhome _ _).mpr hcontains, ⟨q, hq, (hkeyed _ _ _ hq).1⟩, by decide +kernel,
    hleft _ _ _ _ (by decide +kernel), ?_⟩
  have hback : again.act? {} .goOn = some (opened, none) := hbound (by decide +kernel)
  simp [World.play, hact, hback]

end Notes

end LiveQuery
