import LiveQuery.Proofs.Cache.SingleFlight

/-!
# What answers and wishes for fetches do

The store's two transitions that decide on further fetches, said once and in full. An
answer that counts lands in its query alone, and begins the next fetch exactly if that was
asked for meanwhile and somebody listens (`Store.query?_complete`,
`Store.launched_complete`). A wish for a fetch is noted while one is under way, and
otherwise begins one (`Store.refetch_of_busy`, `Store.launched_refetch_of_free`).
-/

namespace LiveQuery

/-- The query once a fetch has been answered. The next one has begun `again`, or not. -/
def Query.settled (q : Query) (answer : Except Failure (QueryData × Fields)) (again : Bool) :
    Query :=
  if again then (Query.marked false (q.answered answer)).begun
  else Query.marked false (q.answered answer)

namespace Store

variable {setup : Setup} {s : Store} {query x : QueryId} {q : Query} {home : String}
variable {request : Request} {answer : Except Failure (QueryData × Fields)}

theorem query?_alters {s' : Store} {service : Service} {f : Query → Query}
    (lives : s.homes.get? query = some home)
    (alters : (s.service home).Alters query f service)
    (cache : s'.cache 0 = (s.cache 0).set home service) :
    s'.query? x = if x = query then (s.query? x).map f else s.query? x := by
  rw [← @query?_cache s' 0, cache, Cache.query?_set, alters x, query?_cache, query?_eq]
  have hhome : (s.cache 0).home? = s.homes.get? := rfl
  rw [hhome]
  by_cases hx : x = query
  · subst hx
    simp [lives]
  · split
    · next h => simp [h]
    · rfl

theorem beginFetch?_of_free (lives : s.homes.get? query = some home)
    (found : s.query? query = some q) (free : q.inFlight = false) :
    s.beginFetch? query = some (q.request query home,
      s.setService home ((s.service home).fetching query)) := by
  simp only [beginFetch?, lives, found, free, Option.bind_eq_bind, Option.bind_some,
    Bool.false_eq_true, if_false]
  rfl

theorem listeners_modifyQuery (f : Query → Query) :
    (s.modifyQuery query f).listeners = s.listeners := by
  unfold modifyQuery
  split <;> rfl

theorem hasListener_landed :
    (s.landed setup request answer).hasListener x = s.hasListener x := by
  unfold hasListener listenersOf landed
  rw [listeners_modifyQuery]
  rfl

theorem dirty_setService_land (lives : s.homes.get? request.query = some request.service)
    (found : s.query? request.query = some q) :
    (((s.setService request.service ((s.service request.service).land setup.conventions
      request.query answer)).query? request.query).map Query.dirty).getD false = q.dirty := by
  rw [query?_alters lives (Service.get?_queries_land answer) (cache_setService _ _), if_pos rfl,
    found]
  cases answer <;> rfl

theorem complete_eq_match (current : s.isCurrent request = true)
    (lives : s.homes.get? request.query = some request.service)
    (found : s.query? request.query = some q) :
    s.complete setup request answer =
      match if q.dirty && s.hasListener request.query then
        (s.landed setup request answer).beginFetch? request.query else none with
      | some (again, next) =>
        ((next.notify [request.query]).1, (next.notify [request.query]).2 ++ [.launch again])
      | none => (s.landed setup request answer).notify [request.query] := by
  have hdirty := @dirty_setService_land setup s q request answer lives found
  rw [← hdirty, ← @hasListener_landed setup s request.query request answer]
  unfold complete
  rw [if_pos current]
  cases answer <;> rfl

theorem query?_landed_eq (lives : s.homes.get? request.query = some request.service) :
    (s.landed setup request answer).query? x =
      if x = request.query then
        (s.query? x).map fun q => Query.marked false (q.answered answer)
      else s.query? x :=
  query?_alters lives Service.alters_answered (cache_landed lives)

theorem homes_landed (lives : s.homes.get? request.query = some request.service) :
    (s.landed setup request answer).homes.get? = s.homes.get? :=
  congrArg Cache.home? (@cache_landed setup s 0 request answer lives)

/-- The two ways in which an answer that counts may end. -/
theorem complete_cases (setup : Setup) (answer : Except Failure (QueryData × Fields))
    (current : s.isCurrent request = true)
    (lives : s.homes.get? request.query = some request.service)
    (found : s.query? request.query = some q) :
    ((q.dirty && s.hasListener request.query) = false ∧
        s.complete setup request answer = (s.landed setup request answer).notify [request.query]) ∨
      (q.dirty && s.hasListener request.query) = true ∧ ∃ next,
        next = (s.landed setup request answer).setService request.service
          (((s.landed setup request answer).service request.service).fetching request.query) ∧
        s.complete setup request answer = ((next.notify [request.query]).1,
          (next.notify [request.query]).2 ++
            [.launch (q.request request.query request.service)]) := by
  rw [complete_eq_match current lives found]
  cases hagain : q.dirty && s.hasListener request.query with
  | false => exact Or.inl ⟨rfl, rfl⟩
  | true =>
    have hhome : (s.landed setup request answer).homes.get? request.query =
        some request.service := by rw [homes_landed lives, lives]
    have hlanded : (s.landed setup request answer).query? request.query =
        some (Query.marked false (q.answered answer)) := by
      rw [query?_landed lives, found, Option.map_some]
    have hrequest : (Query.marked false (q.answered answer)).request request.query
        request.service = q.request request.query request.service := by
      cases answer <;> rfl
    rw [if_pos rfl, beginFetch?_of_free hhome hlanded Query.inFlight_answered, hrequest]
    exact Or.inr ⟨rfl, _, rfl, rfl⟩

/-- An answer that counts settles its query and leaves all others alone. -/
theorem query?_complete (current : s.isCurrent request = true)
    (lives : s.homes.get? request.query = some request.service)
    (found : s.query? request.query = some q) :
    (s.complete setup request answer).1.query? x =
      if x = request.query then
        some (q.settled answer (q.dirty && s.hasListener request.query)) else s.query? x := by
  have hlanded : (s.landed setup request answer).query? x =
      if x = request.query then some (Query.marked false (q.answered answer))
      else s.query? x := by
    rw [query?_landed_eq lives]
    split
    · next hx => rw [hx, found]; rfl
    · rfl
  rcases complete_cases setup answer current lives found with
    ⟨hagain, hnone⟩ | ⟨hagain, next, rfl, hsome⟩
  · rw [hnone, hagain]
    exact hlanded
  · rw [hsome, hagain]
    have hhome : (s.landed setup request answer).homes.get? request.query =
        some request.service := by rw [homes_landed lives, lives]
    show ((s.landed setup request answer).setService _ _).query? x = _
    rw [query?_alters hhome Service.alters_fetching (cache_setService _ _), hlanded]
    split
    · rfl
    · rfl

theorem launched_complete (current : s.isCurrent request = true)
    (lives : s.homes.get? request.query = some request.service)
    (found : s.query? request.query = some q) :
    (s.complete setup request answer).2.filterMap Work.launched? =
      if q.dirty && s.hasListener request.query then
        [q.request request.query request.service] else [] := by
  have hcalls (s : Store) : (s.notify [request.query]).2.filterMap Work.launched? = [] :=
    List.filterMap_eq_nil_iff.mpr (launched?_notify _)
  rcases complete_cases setup answer current lives found with
    ⟨hagain, hnone⟩ | ⟨hagain, next, -, hsome⟩
  · rw [hnone, hagain, hcalls]
    rfl
  · rw [hsome, hagain, List.filterMap_append, hcalls]
    rfl

theorem hasListener_of_launched {again : Request}
    (launched : again ∈ (s.complete setup request answer).2.filterMap Work.launched?) :
    s.hasListener request.query = true := by
  have hcalls (s : Store) : (s.notify [request.query]).2.filterMap Work.launched? = [] :=
    List.filterMap_eq_nil_iff.mpr (launched?_notify _)
  unfold complete at launched
  split at launched
  · rw [← @hasListener_landed setup s request.query request answer]
    cases answer
    all_goals
      dsimp only at launched
      split at launched
      · next hbegin =>
        obtain ⟨hagain, -⟩ := Option.ite_none_right_eq_some.mp hbegin
        exact ((Bool.and_eq_true _ _).mp hagain).2
      · rw [hcalls] at launched
        cases launched
  · cases launched

/-! ## Wishes -/

theorem refetch_of_busy (found : s.query? query = some q) (follows : q.config.skip = false)
    (busy : q.inFlight = true) :
    s.refetch query = (s.modifyQuery query (Query.marked true), []) := by
  simp only [refetch, found, follows, busy, Bool.false_eq_true, if_false, if_true]
  rfl

theorem query?_refetch_of_busy (found : s.query? query = some q)
    (follows : q.config.skip = false) (busy : q.inFlight = true) :
    (s.refetch query).1.query? query = some (Query.marked true q) := by
  obtain ⟨home, hhome, hq⟩ := exists_home found
  rw [refetch_of_busy found follows busy,
    query?_alters hhome Service.alters_mark (cache_mark hhome), if_pos rfl, found]
  rfl

theorem launched_refetch_of_free (found : s.query? query = some q)
    (follows : q.config.skip = false) (free : q.inFlight = false) :
    ∃ home, (s.refetch query).2.filterMap Work.launched? = [q.request query home] := by
  obtain ⟨home, hhome, -⟩ := exists_home found
  refine ⟨home, ?_⟩
  have hfetch : s.refetch query = s.fetchNow query := by
    simp only [refetch, found, follows, free, Bool.false_eq_true, if_false]
  rw [hfetch, fetchNow, beginFetch?_of_free hhome found free]
  dsimp only
  rw [List.filterMap_append, List.filterMap_eq_nil_iff.mpr (launched?_notify _)]
  rfl

end Store

end LiveQuery
