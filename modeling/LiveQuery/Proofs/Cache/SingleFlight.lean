import LiveQuery.Proofs.Cache.Acts
import LiveQuery.Proofs.Store.Histories

/-!
# Fetches do not overlap

At any time one life of a query has one outstanding fetch if it is in flight and none if
it is not (`Run.outstanding_eq`). A fetch begins only for a query that is not in flight,
an answer ends the one fetch it belongs to, and a query that comes to life again under
the same id has an epoch that no earlier request carries, so that answers to earlier
lives change nothing.
-/

namespace LiveQuery

/-- What says whether a fetch of a life is under way. -/
def Query.flight (q : Query) : Nat × Bool := (q.epoch, q.inFlight)

theorem Query.inFlight_answered {q : Query} {answer : Except Failure (QueryData × Fields)} :
    (Query.marked false (q.answered answer)).inFlight = false := by
  cases answer <;> simp [marked, answered, inFlight, landed, failed]

namespace Cache

variable {setup : Setup} {c c' : Cache} {name : String} {query : QueryId}

/-- How many outstanding fetches are for a query in an epoch? -/
def flights (c : Cache) (query : QueryId) (epoch : Nat) : Nat :=
  c.outstanding.countP fun request => request.isFor query epoch = true

/-- Every life has one outstanding fetch if it is in flight, and none otherwise. -/
def Single (c : Cache) : Prop :=
  ∀ name query q, c.find? name query = some q →
    c.flights query q.epoch = if q.inFlight then 1 else 0

theorem flights_of_cons {request : Request} {rest : Multiset Request} {epoch : Nat}
    (asked : c.outstanding = request ::ₘ rest) :
    c.flights query epoch =
      rest.countP (fun r => r.isFor query epoch = true) +
        if request.isFor query epoch then 1 else 0 := by
  rw [flights, asked, Multiset.countP_cons]

theorem isFor_of_ne {request : Request} {epoch : Nat} (h : query ≠ request.query) :
    request.isFor query epoch = false := by
  simp [Request.isFor, Ne.symm h]

/-- Where no fetch begins or ends and no life, the count stays right. -/
theorem Single.of_flight (h : c.Single) (outstanding : c'.outstanding = c.outstanding)
    (flight : ∀ name query,
      (c'.find? name query).map Query.flight = (c.find? name query).map Query.flight) :
    c'.Single := by
  intro name query q hq
  have hflight := flight name query
  rw [hq, Option.map_some] at hflight
  obtain ⟨p, hp, hpq⟩ := Option.map_eq_some_iff.mp hflight.symm
  obtain ⟨hepoch, hinFlight⟩ := Prod.mk.inj hpq
  rw [flights, outstanding, ← hepoch, ← hinFlight]
  exact h _ _ _ hp

theorem Single.step {move : Move} (lives : c.Lives) (h : c.Single)
    (hstep : Step setup c move c') : c'.Single := by
  cases hstep with
  | @born ref new =>
    intro name query q hq
    rcases find?_adopt.mp hq with ⟨-, -, rfl⟩ | ⟨-, hq⟩
    · have hnone : c.flights query c.nextEpoch = 0 := by
        refine Multiset.countP_eq_zero.mpr ?_
        intro request hr hfor
        have hlt := lives.asked_lt hr
        have hepoch : request.epoch = c.nextEpoch := by
          simp only [Request.isFor, Bool.and_eq_true, beq_iff_eq] at hfor
          exact hfor.2
        exact absurd hepoch (Nat.ne_of_lt hlt)
      have hidle : (Query.new ref.descriptor ref.config
          (Store.filterOf setup ref.descriptor ref.config) c.nextEpoch).inFlight = false := by
        simp [Query.inFlight, Query.new, QueryState.initial]
      rw [hidle]
      exact hnone
    · exact h _ _ _ hq
  | @begun query home q hhome found free due =>
    intro name x p hp
    rw [flights_of_cons rfl]
    rcases (lives.find?_alters hhome Service.alters_fetching).mp hp with
      ⟨rfl, -, q', hq', rfl⟩ | ⟨hne, hp⟩
    · obtain rfl := Option.some.inj (found.symm.trans hq')
      have hnone := h _ _ _ hq'
      rw [free] at hnone
      simpa [flights, Query.request, Request.isFor, Query.begun, Query.inFlight] using hnone
    · rw [isFor_of_ne hne]
      exact h _ _ _ hp
  | @deferred query home q hhome found follows busy =>
    intro name x p hp
    rcases (lives.find?_alters hhome Service.alters_mark).mp hp with
      ⟨rfl, -, q', hq', rfl⟩ | ⟨-, hp⟩
    · have hcount := h _ _ _ hq'
      exact hcount
    · exact h _ _ _ hp
  | @landed request rest answer asked fits current =>
    obtain ⟨q, hq, hepoch⟩ := current
    intro name x p hp
    rcases (lives.find?_alters (lives.home hq) Service.alters_answered).mp hp with
      ⟨rfl, -, q', hq', rfl⟩ | ⟨hne, hp⟩
    · obtain rfl := Option.some.inj (hq.symm.trans hq')
      have hfor : request.isFor request.query q.epoch = true := by
        simp [Request.isFor, hepoch]
      have hcount := h _ _ _ hq'
      rw [flights_of_cons asked, hfor, if_pos rfl] at hcount
      have hrest : rest.countP (fun r => r.isFor request.query q.epoch = true) = 0 := by
        split at hcount <;> omega
      rw [Query.inFlight_answered]
      cases answer <;> exact hrest
    · have hcount := h _ _ _ hp
      rw [flights_of_cons asked, isFor_of_ne hne] at hcount
      exact hcount
  | @dropped request rest answer asked gone =>
    intro name x p hp
    have hcount := h _ _ _ hp
    have hnot : request.isFor x p.epoch = false := by
      refine Bool.eq_false_iff.mpr fun hfor => gone ?_
      simp only [Request.isFor, Bool.and_eq_true, beq_iff_eq] at hfor
      obtain ⟨rfl, hepoch⟩ := hfor
      exact lives.isCurrent (asked ▸ Multiset.mem_cons_self request rest) hp hepoch.symm
    rw [flights_of_cons asked, hnot] at hcount
    exact hcount
  | merged =>
    refine h.of_flight rfl ?_
    intro name x
    rw [find?_set]
    split
    · next hname =>
      subst hname
      exact Service.map_get?_mergeAll (fun _ _ _ _ => by simp [Query.flight]) _ _
    · rfl
  | vacuumed hhome vacuum =>
    intro name x p hp
    exact h _ _ _ ((find?_retire lives hhome vacuum).mp hp).2

end Cache

variable {setup : Setup} {history : List Happening} {w : World}
variable {query : QueryId} {q : Query} {request : Request}

theorem Run.single (h : Run setup history w) : w.cache.Single :=
  h.cache_induction (P := Cache.Single) (fun _ _ _ hq => by cases hq)
    fun lives hs hstep => hs.step lives hstep

namespace Store

variable {s : Store} {answer : Except Failure (QueryData × Fields)}

theorem exists_query?_complete (current : s.isCurrent request = true)
    (lives : s.homes.get? request.query = some request.service)
    (hq : s.query? request.query = some q) :
    ∃ q', (s.complete setup request answer).1.query? request.query = some q' ∧
      (q'.state.isFetching = false ∨ ∃ again,
        .launch again ∈ (s.complete setup request answer).2 ∧
          again.isFor request.query q.epoch = true) := by
  have hlanded : (s.landed setup request answer).query? request.query =
      some (Query.marked false (q.answered answer)) := by
    rw [query?_landed lives, hq, Option.map_some]
  rcases complete_eq current with hnone | ⟨again, next, hbegin, hsome⟩
  · rw [hnone]
    refine ⟨_, hlanded, Or.inl ?_⟩
    cases answer <;> rfl
  · rw [hsome]
    obtain ⟨home, p, hhome, hp, -, rfl, rfl⟩ := beginFetch?_eq_some hbegin
    rw [query?_eq, hhome, Option.bind_some, hp] at hlanded
    obtain rfl := Option.some.inj hlanded
    refine ⟨Query.begun (Query.marked false (q.answered answer)), ?_, Or.inr ⟨_,
      List.mem_append_right _ (List.mem_singleton_self _), ?_⟩⟩
    · show ((s.landed setup request answer).setService home _).query? request.query = _
      rw [query?_eq, service_setService]
      show (((s.landed setup request answer).homes.get? request.query).bind _) = _
      rw [hhome, Option.bind_some, Function.update_self, Service.alters_fetching, if_pos rfl,
        hp, Option.map_some]
    · cases answer <;> simp [Request.isFor, Query.request, Query.marked, Query.answered,
        Query.landed, Query.failed]

end Store

/-- Every life that is in flight has one outstanding fetch and every other has none. The
fetch of a life in flight is for the present life, and its answer ends it. -/
theorem Run.outstanding_eq (h : Run setup history w) (hq : w.store.query? query = some q) :
    w.outstanding.countP (·.isFor query q.epoch) =
        (if !q.pending && q.state.isFetching then 1 else 0) ∧
      (q.pending = false → q.state.isFetching = true →
        ∃ request ∈ w.outstanding, request.isFor query q.epoch = true ∧
          ∀ answer, ∃ q', (w.store.complete setup request answer).1.query? query = some q' ∧
            (q'.state.isFetching = false ∨ ∃ again,
              .launch again ∈ (w.store.complete setup request answer).2 ∧
                again.isFor query q.epoch = true)) := by
  have hlives := h.lives
  obtain ⟨name, hfind⟩ := hlives.query?_eq_some.mp (Store.query?_cache.trans hq)
  have hcount : w.outstanding.countP (·.isFor query q.epoch) =
      if !q.pending && q.state.isFetching then 1 else 0 := by
    have hsingle := h.single _ _ _ hfind
    simpa [Cache.flights, World.cache, Store.cache, Query.inFlight] using hsingle
  refine ⟨hcount, ?_⟩
  intro hpending hfetching
  have hpos : 0 < w.outstanding.countP (·.isFor query q.epoch) := by
    rw [hcount, hpending, hfetching]
    decide
  obtain ⟨request, hmem, hfor⟩ := List.countP_pos_iff.mp hpos
  refine ⟨request, hmem, hfor, ?_⟩
  intro answer
  simp only [Request.isFor, Bool.and_eq_true, beq_iff_eq] at hfor
  obtain ⟨rfl, hepoch⟩ := hfor
  have hasked := hlives.asked (Multiset.mem_coe.mpr hmem) hfind hepoch.symm
  have hname : request.service = name := by
    rw [hasked]
    rfl
  subst hname
  have hcurrent : w.store.isCurrent request = true :=
    (@Store.isCurrent_iff _ w.outstanding _).mpr ⟨q, hfind, hepoch.symm⟩
  exact Store.exists_query?_complete hcurrent (hlives.home hfind) hq

/-- While the first fetch of the ideas has begun and has not been handed out yet, it is
the one outstanding fetch. -/
theorem Notes.ideas_in_flight :
    ∃ q, asked.store.query? ideas.id = some q ∧ q.pending = false ∧
      q.state.isFetching = true ∧ asked.outstanding.countP (·.isFor ideas.id q.epoch) = 1 := by
  have hbegun : (asked.store.query? ideas.id).any
      (fun q => !q.pending && q.state.isFetching) = true := by decide +kernel
  obtain ⟨q, hq, hflight⟩ := (Option.any_eq_true _ _).mp hbegun
  rw [Bool.and_eq_true, Bool.not_eq_true'] at hflight
  refine ⟨q, hq, hflight.1, hflight.2, ?_⟩
  rw [(Run.outstanding_eq run_asked hq).1, hflight.1, hflight.2]
  rfl

end LiveQuery
