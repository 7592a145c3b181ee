import LiveQuery.Proofs.Cache.Moves

/-!
# Acts as moves

Every act that can happen to a world moves its cache by some of the moves of
`Cache.Step` (`World.steps_of_act`), and hands out, keeps or ends outstanding fetches
accordingly. What every move keeps is therefore kept along every run
(`Run.cache_induction`).
-/

namespace LiveQuery

def Work.launched? : Work → Option Request
  | .launch request => some request
  | _ => none

def Turn.launched? : Turn → Option Request
  | .work job => job.launched?
  | .outside => none

def Signal.fetched : Signal → List Request
  | .fetch request => [request]
  | _ => []

/-- The changes that a piece of work merges. -/
def Work.reaching : Work → List Move
  | .apply name changes => [.merged name changes]
  | _ => []

/-- The fetches that have begun and have not been answered, whether or not they have been
handed out yet. -/
def World.outstanding (w : World) : List Request :=
  w.agenda.filterMap Turn.launched? ++ w.requests

def launches (work : List Work) : Multiset Request := ↑(work.filterMap Work.launched?)

@[simp] theorem launches_nil : launches [] = 0 := rfl

@[simp] theorem launches_append (work more : List Work) :
    launches (work ++ more) = launches work + launches more := by
  simp [launches, List.filterMap_append]

@[simp] theorem launches_launch (request : Request) : launches [.launch request] = {request} :=
  rfl

theorem launches_eq_zero {work : List Work} (h : ∀ job ∈ work, job.launched? = none) :
    launches work = 0 := by
  rw [launches, List.filterMap_eq_nil_iff.mpr h]
  rfl

/-- The cache of a store with the given outstanding fetches. -/
def Store.cache (s : Store) (outstanding : Multiset Request) : Cache :=
  ⟨s.service, s.homes.get?, s.nextEpoch, outstanding⟩

def World.cache (w : World) : Cache := w.store.cache ↑w.outstanding

/-- Is a move the store's own, rather than an answer or changes that have reached it? -/
def Move.IsInner : Move → Prop
  | .answered _ _ => False
  | .merged _ _ => False
  | _ => True

theorem requests_eq_cons {requests : List Request} {query : QueryId} {epoch : Nat}
    {request : Request} (h : requests.find? (·.isFor query epoch) = some request) :
    (↑requests : Multiset Request) = request ::ₘ ↑(requests.eraseP (·.isFor query epoch)) := by
  obtain ⟨hfor, before, after, rfl, hbefore⟩ := List.find?_eq_some_iff_append.mp h
  rw [List.eraseP_append_right _ (fun b hb => by simpa using hbefore b hb), List.eraseP_cons, hfor,
    cond_true, Multiset.cons_coe]
  exact Multiset.coe_eq_coe.mpr List.perm_middle

/-- Does a move begin a fetch of a query? -/
def Move.Begins (query : QueryId) : Move → Prop
  | .begun request => request.query = query
  | _ => False

namespace Store

variable {setup : Setup} {s s' : Store} {rest : Multiset Request} {query : QueryId}
variable {home : String} {request : Request}

/-! ## The cache of a store -/

theorem query?_eq (s : Store) (query : QueryId) :
    s.query? query =
      (s.homes.get? query).bind fun home => (s.service home).queries.get? query := by
  unfold query? service
  cases s.homes.get? query with
  | none => rfl
  | some home =>
    show (s.services.get? home).bind _ = ((s.services.get? home).getD {}).queries.get? query
    cases s.services.get? home with
    | none => rfl
    | some service => rfl

theorem exists_home {s : Store} {query : QueryId} {q : Query} (found : s.query? query = some q) :
    ∃ home, s.homes.get? query = some home ∧ (s.service home).queries.get? query = some q :=
  Option.bind_eq_some_iff.mp ((query?_eq s query).symm.trans found)

@[simp] theorem query?_cache : (s.cache rest).query? query = s.query? query :=
  (query?_eq s query).symm

theorem service_setService (name : String) (service : Service) :
    (s.setService name service).service = Function.update s.service name service := by
  funext n
  unfold Store.service setService
  rw [Table.get?_insert, Function.update_apply]
  by_cases hn : name = n
  · simp [hn]
  · simp [hn, Ne.symm hn]

theorem cache_setService (name : String) (service : Service) :
    (s.setService name service).cache rest = (s.cache rest).set name service := by
  simp only [cache, Cache.set, service_setService]
  rfl

theorem service_modifyQuery {f : Query → Query} (lives : s.homes.get? query = some home) :
    (s.modifyQuery query f).service = Function.update s.service home
      { s.service home with queries := (s.service home).queries.modify query f } := by
  funext n
  unfold Store.service modifyQuery
  rw [lives]
  dsimp only
  rw [Table.get?_modify, Function.update_apply]
  by_cases hn : n = home
  · subst hn
    simp only [if_true]
    cases s.services.get? n with
    | none => rfl
    | some service => rfl
  · simp [hn]

theorem cache_mark {dirty : Bool} (lives : s.homes.get? query = some home) :
    (s.modifyQuery query (Query.marked dirty)).cache rest =
      (s.cache rest).set home ((s.service home).mark query dirty) := by
  have hservice := service_modifyQuery (f := Query.marked dirty) lives
  simp only [cache, Cache.set, hservice]
  unfold modifyQuery
  rw [lives]
  rfl

theorem isCurrent_iff : s.isCurrent request = true ↔ (s.cache rest).IsCurrent request := by
  have hq : (s.services.get? request.service).bind (·.queries.get? request.query) =
      (s.service request.service).queries.get? request.query := by
    unfold Store.service
    cases s.services.get? request.service with
    | none => rfl
    | some service => rfl
  unfold isCurrent Cache.IsCurrent
  rw [hq]
  show _ ↔ ∃ q, (s.service request.service).queries.get? request.query = some q ∧ _
  cases (s.service request.service).queries.get? request.query with
  | none => simp
  | some q => simp

/-! ## Transitions -/

/-- Does a transition move the cache by the given moves, and begin the fetches that its
work hands out? -/
def Moves (setup : Setup) (s : Store) (moves : List Move) (next : Store × List Work) : Prop :=
  ∀ rest, Cache.Steps setup (s.cache rest) moves (next.1.cache (launches next.2 + rest))

/-- Does a transition move the cache by at most one move, which is such a one? -/
def MovesBy (setup : Setup) (own : Move → Prop) (s : Store) (next : Store × List Work) : Prop :=
  ∃ move? : Option Move, (∀ move ∈ move?, own move) ∧ s.Moves setup move?.toList next

variable {own : Move → Prop}

theorem movesBy_of_eq {next : Store × List Work}
    (cache : ∀ rest, next.1.cache rest = s.cache rest)
    (work : ∀ job ∈ next.2, job.launched? = none) : s.MovesBy setup own next := by
  refine ⟨none, by simp, ?_⟩
  intro rest
  rw [launches_eq_zero work, zero_add, cache]
  exact .refl _

theorem MovesBy.mono {more : Move → Prop} {next : Store × List Work}
    (h : s.MovesBy setup own next) (weaker : ∀ move, own move → more move) :
    s.MovesBy setup more next := by
  obtain ⟨move?, hown, hmoves⟩ := h
  exact ⟨move?, fun move hmove => weaker move (hown move hmove), hmoves⟩

theorem movesBy_some {move : Move} {next : Store × List Work} (h : own move)
    (step : ∀ rest, Cache.Step setup (s.cache rest) move (next.1.cache (launches next.2 + rest))) :
    s.MovesBy setup own next := by
  refine ⟨some move, ?_, fun rest => (step rest).steps⟩
  rintro _ ⟨⟩
  exact h

@[simp] theorem cache_notify (touched : List QueryId) :
    (s.notify touched).1.cache rest = s.cache rest := rfl

theorem launched?_notify (touched : List QueryId) :
    ∀ job ∈ (s.notify touched).2, job.launched? = none := by
  intro job hjob
  rcases List.mem_append.mp hjob with hjob | hjob
  · obtain ⟨x, -, hjob⟩ := List.mem_flatMap.mp hjob
    split at hjob
    · obtain ⟨l, -, rfl⟩ := List.mem_map.mp hjob
      rfl
    · cases hjob
  · obtain ⟨l, -, rfl⟩ := List.mem_map.mp hjob
    rfl

@[simp] theorem launches_notify (touched : List QueryId) :
    launches (s.notify touched).2 = 0 :=
  launches_eq_zero (launched?_notify touched)

theorem beginFetch?_eq_some {next : Store}
    (h : s.beginFetch? query = some (request, next)) :
    ∃ home q, s.homes.get? query = some home ∧
      (s.service home).queries.get? query = some q ∧ q.inFlight = false ∧
      request = q.request query home ∧
      next = s.setService home ((s.service home).fetching query) := by
  obtain ⟨home, hhome, h⟩ := Option.bind_eq_some_iff.mp h
  obtain ⟨q, hq, h⟩ := Option.bind_eq_some_iff.mp h
  rw [query?_eq, hhome, Option.bind_some] at hq
  split at h
  · cases h
  · next hfree =>
    cases h
    exact ⟨home, q, hhome, hq, by simpa using hfree, rfl, rfl⟩

theorem step_of_beginFetch? {next : Store}
    (h : s.beginFetch? query = some (request, next))
    (due : ∀ q, s.query? query = some q → q.MayBegin) :
    Cache.Step setup (s.cache rest) (.begun request) (next.cache (request ::ₘ rest)) := by
  obtain ⟨home, q, hhome, hq, hfree, rfl, rfl⟩ := beginFetch?_eq_some h
  have hdue : q.MayBegin := due q (by rw [query?_eq, hhome]; exact hq)
  have hlives : (s.cache rest).home? query = some home := hhome
  rw [cache_setService]
  exact .begun hlives hq hfree hdue

theorem movesBy_fetchNow (due : ∀ q, s.query? query = some q → q.MayBegin) :
    s.MovesBy setup (Move.Begins query) (s.fetchNow query) := by
  unfold fetchNow
  split
  · next request next h =>
    have hbegins : Move.Begins query (.begun request) := by
      obtain ⟨home, q, -, -, -, rfl, -⟩ := beginFetch?_eq_some h
      rfl
    refine movesBy_some hbegins fun rest => ?_
    have hstep : Cache.Step setup (s.cache rest) _ _ := step_of_beginFetch? h due
    simpa using hstep
  · exact movesBy_of_eq (fun _ => rfl) (List.forall_mem_nil _)

theorem movesBy_materialize (ref : QueryRef) :
    s.MovesBy setup (· = .born ref) (s.materialize setup ref) := by
  have hwork : ∀ job ∈ (s.materialize setup ref).2, job.launched? = none := by
    unfold materialize
    intro job hjob
    dsimp only at hjob
    split at hjob
    · cases hjob
    · rw [List.mem_singleton.mp hjob]
      rfl
  cases hnew : s.query? ref.id with
  | some q =>
    refine movesBy_of_eq (fun _ => ?_) hwork
    simp only [materialize, hnew, Option.isSome_some, if_true]
  | none =>
    refine movesBy_some rfl fun rest => ?_
    have hstep : Cache.Step setup (s.cache rest) (.born ref) _ :=
      .born (by rw [query?_cache, hnew])
    rw [launches_eq_zero hwork, zero_add]
    convert hstep using 1
    have hhomes : (s.homes.insert ref.id ref.descriptor.service).get? =
        Function.update s.homes.get? ref.id (some ref.descriptor.service) := by
      funext x
      rw [Table.get?_insert, Function.update_apply]
      simp only [eq_comm]
    simp only [materialize, hnew, Option.isSome_none, Bool.false_eq_true, if_false, cache,
      Cache.adopt, Cache.set, ← hhomes, Service.adopt]
    rw [← service_setService]
    rfl

theorem movesBy_subscribe :
    s.MovesBy setup (Move.Begins query) (s.subscribe query).2 := by
  unfold subscribe
  dsimp only
  split
  · next hwants =>
    refine movesBy_fetchNow (s := { s with
      registered := s.registered + 1
      listeners := s.listeners ++ [(query, ⟨s.registered + 1⟩)] }) fun q hq => ?_
    rw [hq] at hwants
    simp only [Option.map_some, Option.getD_some, Query.wantsFetch, Bool.or_eq_true,
      Bool.and_eq_true, beq_iff_eq] at hwants
    rcases hwants with (hpending | hsuccess) | herror
    · exact Or.inl hpending
    · exact Or.inr (Or.inr (by rw [hsuccess.1.1]; decide))
    · exact Or.inr (Or.inr (by rw [herror.1]; decide))
  · exact movesBy_of_eq (fun _ => rfl) (List.forall_mem_nil _)

theorem movesBy_unsubscribe (listener : ListenerId) (vacuum : Option Bool) :
    s.MovesBy setup (· = .vacuumed query) (s.unsubscribe setup query listener vacuum) := by
  unfold unsubscribe
  dsimp only
  split
  · exact movesBy_of_eq (fun _ => rfl) (List.forall_mem_nil _)
  split
  · exact movesBy_of_eq (fun _ => rfl) (List.forall_mem_nil _)
  next home hhome =>
  split
  · split
    · next service hvacuum =>
      refine movesBy_some rfl fun rest => ?_
      have hlives : (s.cache rest).home? query = some home := hhome
      have hstep : Cache.Step setup (s.cache rest) (.vacuumed query) _ := .vacuumed hlives hvacuum
      rw [launches_notify, zero_add, cache_notify]
      convert hstep using 1
      have hhomes : (s.homes.erase query).get? = Function.update s.homes.get? query none := by
        funext x
        rw [Table.get?_erase, Function.update_apply]
        simp only [eq_comm]
      simp only [cache, Cache.retire, Cache.set, ← hhomes]
      rw [← service_setService]
      rfl
    · exact movesBy_of_eq (fun _ => rfl) (List.forall_mem_nil _)
  · exact movesBy_of_eq (fun _ => rfl) (List.forall_mem_nil _)

theorem movesBy_refetch :
    s.MovesBy setup (fun move => move.Begins query ∨ move = .deferred query)
      (s.refetch query) := by
  unfold refetch
  split
  · exact movesBy_of_eq (fun _ => rfl) (List.forall_mem_nil _)
  next q hq =>
  split
  · exact movesBy_of_eq (fun _ => rfl) (List.forall_mem_nil _)
  next hskip =>
  have hskip : q.config.skip = false := by simpa using hskip
  split
  · next hbusy =>
    refine movesBy_some (Or.inr rfl) fun rest => ?_
    rw [query?_eq] at hq
    obtain ⟨home, hhome, hq⟩ := Option.bind_eq_some_iff.mp hq
    have hlives : (s.cache rest).home? query = some home := hhome
    have hstep : Cache.Step setup (s.cache rest) (.deferred query) _ :=
      .deferred hlives hq hskip hbusy
    have hmark : (s.modifyQuery query (Query.marked true)).cache rest = _ := cache_mark hhome
    unfold Query.marked at hmark
    rw [launches_nil, zero_add, hmark]
    exact hstep
  · have hfetch : s.MovesBy setup (Move.Begins query) (s.fetchNow query) := by
      refine movesBy_fetchNow ?_
      intro p hp
      obtain rfl := Option.some.inj (hq.symm.trans hp)
      exact Or.inr (Or.inl hskip)
    exact hfetch.mono fun _ => Or.inl

theorem moves_apply (name : String) (changes : List Change) :
    s.Moves setup [.merged name changes] (s.apply setup name changes) := by
  have hstep (rest : Multiset Request) : Cache.Step setup (s.cache rest)
      (.merged name changes) _ := .merged
  intro rest
  unfold apply
  dsimp only
  split
  · rw [launches_nil, zero_add, cache_setService]
    exact (hstep rest).steps
  · have hagain (again : List QueryId) : launches (again.map Work.refetch) = 0 := by
      refine launches_eq_zero ?_
      intro job hjob
      obtain ⟨x, -, rfl⟩ := List.mem_map.mp hjob
      rfl
    rw [launches_append, launches_notify, hagain, zero_add, zero_add,
      cache_notify, cache_setService]
    exact (hstep rest).steps

theorem mayBegin_answered {q : Query} (answer : Except Failure (QueryData × Fields)) :
    (Query.marked false (q.answered answer)).MayBegin := by
  refine Or.inr (Or.inr ?_)
  cases answer with
  | ok result => exact (nofun : Status.success ≠ .idle)
  | error failure => exact (nofun : Status.error ≠ .idle)

/-- The store once a fetch for a life that goes on has been answered. -/
def landed (setup : Setup) (s : Store) (request : Request)
    (answer : Except Failure (QueryData × Fields)) : Store :=
  (s.setService request.service
    ((s.service request.service).land setup.conventions request.query answer)).modifyQuery
      request.query (Query.marked false)

theorem cache_landed {answer : Except Failure (QueryData × Fields)}
    (lives : s.homes.get? request.query = some request.service) :
    (s.landed setup request answer).cache rest =
      (s.cache rest).set request.service (((s.service request.service).land
        setup.conventions request.query answer).mark request.query false) := by
  unfold landed
  rw [cache_mark (s := s.setService _ _) lives, cache_setService]
  simp only [Cache.set, service_setService, Function.update_self, Function.update_idem]

theorem query?_landed {answer : Except Failure (QueryData × Fields)}
    (lives : s.homes.get? request.query = some request.service) :
    (s.landed setup request answer).query? request.query =
      (s.query? request.query).map fun q => Query.marked false (q.answered answer) := by
  have hhome : (s.cache 0).home? request.query = some request.service := lives
  rw [← @query?_cache _ 0, cache_landed lives, Cache.query?_set, if_pos hhome,
    Service.alters_answered, if_pos rfl, query?_eq, lives]
  rfl

theorem mayBegin_of_landed {answer : Except Failure (QueryData × Fields)} {q : Query}
    (lives : s.homes.get? request.query = some request.service)
    (h : (s.landed setup request answer).query? request.query = some q) : q.MayBegin := by
  rw [query?_landed lives] at h
  obtain ⟨p, -, rfl⟩ := Option.map_eq_some_iff.mp h
  exact mayBegin_answered answer

/-- Either the answered query is told to its listeners, or it is fetched again. -/
theorem complete_eq {answer : Except Failure (QueryData × Fields)}
    (current : s.isCurrent request = true) :
    s.complete setup request answer = (s.landed setup request answer).notify [request.query] ∨
      ∃ again next, (s.landed setup request answer).beginFetch? request.query =
          some (again, next) ∧
        s.complete setup request answer =
          ((next.notify [request.query]).1,
            (next.notify [request.query]).2 ++ [.launch again]) := by
  unfold complete
  rw [if_pos current]
  cases answer
  all_goals
    dsimp only
    split
    · next again next h =>
      obtain ⟨-, hbegin⟩ := Option.ite_none_right_eq_some.mp h
      exact Or.inr ⟨again, next, hbegin, rfl⟩
    · exact Or.inl rfl

theorem steps_complete {answer : Except Failure (QueryData × Fields)}
    (lives : (s.cache (request ::ₘ rest)).Lives) (fits : request.fits answer = true) :
    ∃ own : Option Move, (∀ move ∈ own, move.Begins request.query) ∧
      Cache.Steps setup (s.cache (request ::ₘ rest)) (.answered request answer :: own.toList)
        ((s.complete setup request answer).1.cache
          (launches (s.complete setup request answer).2 + rest)) := by
  by_cases hcurrent : s.isCurrent request = true
  · have hc : (s.cache (request ::ₘ rest)).IsCurrent request := isCurrent_iff.mp hcurrent
    have hhome : s.homes.get? request.query = some request.service := by
      obtain ⟨q, hq, -⟩ := hc
      exact lives.home hq
    have hlanded : Cache.Step setup (s.cache (request ::ₘ rest)) (.answered request answer)
        ((s.landed setup request answer).cache rest) := by
      rw [cache_landed hhome]
      exact .landed rfl fits hc
    rcases complete_eq hcurrent with hnone | ⟨again, next, hbegin, hsome⟩
    · refine ⟨none, by simp, ?_⟩
      rw [hnone, launches_notify, zero_add]
      exact hlanded.steps
    · have hbegins : Move.Begins request.query (.begun again) := by
        obtain ⟨home, q, -, -, -, rfl, -⟩ := beginFetch?_eq_some hbegin
        rfl
      refine ⟨some (.begun again), by rintro _ ⟨⟩; exact hbegins, ?_⟩
      have hbegun : Cache.Step setup ((s.landed setup request answer).cache rest) _ _ :=
        step_of_beginFetch? hbegin fun p hp => mayBegin_of_landed hhome hp
      rw [hsome, launches_append, launches_notify, launches_launch, zero_add,
        Multiset.singleton_add]
      exact .head hlanded hbegun.steps
  · have hgone : ¬(s.cache (request ::ₘ rest)).IsCurrent request :=
      fun h => hcurrent (isCurrent_iff.mpr h)
    refine ⟨none, by simp, ?_⟩
    unfold complete
    rw [if_neg hcurrent, launches_nil, zero_add]
    exact Cache.Step.steps (.dropped rfl hgone)

theorem launched?_applyEvents (events : List Event) :
    ∀ job ∈ applyEvents events, job.launched? = none := by
  intro job hjob
  obtain ⟨group, -, rfl⟩ := List.mem_map.mp hjob
  rfl

theorem movesBy_emit (own : Move → Prop) {now : Nat} {event : Event} :
    s.MovesBy setup own (s.emit setup now event) := by
  unfold emit
  dsimp only
  split
  · exact movesBy_of_eq (fun _ => rfl) (by simp [Work.launched?])
  · exact movesBy_of_eq (fun _ => rfl) (by simp [Work.launched?])

theorem movesBy_flush (own : Move → Prop) : s.MovesBy setup own s.flush :=
  movesBy_of_eq (fun _ => rfl) (launched?_applyEvents _)

theorem movesBy_flushWindow (own : Move → Prop) {window : Nat} :
    s.MovesBy setup own (s.flushWindow window) :=
  movesBy_of_eq (fun _ => rfl) (launched?_applyEvents _)

theorem moves_run (job : Work) :
    ∃ own : Option Move, (∀ move ∈ own, ∃ query, job = .refetch query ∧
        (move.Begins query ∨ move = .deferred query)) ∧ ∀ rest,
      Cache.Steps setup (s.cache (↑job.launched?.toList + rest)) (job.reaching ++ own.toList)
        ((s.run setup job).1.cache (launches (s.run setup job).2.1 +
          (↑((s.run setup job).2.2.toList.flatMap Signal.fetched) + rest))) := by
  have still (next : Store) (handed : List Request)
      (cache : ∀ rest, next.cache rest = s.cache rest) :
      ∃ own : Option Move, (∀ move ∈ own, ∃ query, job = .refetch query ∧
          (move.Begins query ∨ move = .deferred query)) ∧ ∀ rest, Cache.Steps setup
        (s.cache (↑handed + rest)) ([] ++ own.toList)
        (next.cache (launches [] + (↑handed + rest))) := by
    refine ⟨none, by simp, ?_⟩
    intro rest
    rw [launches_nil, zero_add, cache]
    exact .refl _
  cases job with
  | call t listener payload =>
    unfold run
    dsimp only
    split
    · exact still _ [] fun _ => rfl
    · exact still _ [] fun _ => rfl
  | launch request => exact still s [request] fun _ => rfl
  | startTimer window deadline => exact still s [] fun _ => rfl
  | refetch query =>
    have hrefetch : s.MovesBy setup _ (s.refetch query) := movesBy_refetch
    obtain ⟨own, hown, hmoves⟩ := hrefetch
    refine ⟨own, fun move hmove => ⟨query, rfl, hown move hmove⟩, ?_⟩
    intro rest
    simpa [run, Work.launched?, Work.reaching] using hmoves rest
  | apply name changes =>
    refine ⟨none, by simp, ?_⟩
    intro rest
    simpa [run, Work.launched?, Work.reaching] using moves_apply name changes rest
  | bind name =>
    unfold run
    dsimp only
    split
    · exact still _ [] fun _ => rfl
    · exact still _ [] fun _ => rfl
  | keepBinding name =>
    unfold run
    dsimp only
    split
    · exact still _ [] fun _ => rfl
    · exact still _ [] fun _ => rfl

end Store

namespace World

variable {setup : Setup} {w w' : World} {a : Act} {signal : Option Signal}
variable {moves : List Move} {next : Store × List Work}

/-- What reaches the cache from outside in an act: an answer, or changes. -/
def reaching (w : World) : Act → List Move
  | .answered query epoch answer =>
    ((w.requests.find? (·.isFor query epoch)).map (Move.answered · answer)).toList
  | .goOn =>
    match w.agenda with
    | .work job :: _ => job.reaching
    | _ => []
  | _ => []

/-- Does an act ask for a fetch of a query: at the wish of somebody outside, or because an
event calls for it? -/
def asksFor (w : World) (a : Act) (query : QueryId) : Bool :=
  match a, w.agenda with
  | .refetch x, _ => x == query
  | .goOn, .work (.refetch x) :: _ => x == query
  | _, _ => false

/-- Can an act be the reason of a move of the store's own? -/
def Causes (w : World) (a : Act) : Move → Prop
  | .born ref => a = .materialize ref
  | .begun request => a = .subscribe request.query ∨ w.asksFor a request.query = true ∨
      ∃ epoch answer, a = .answered request.query epoch answer
  | .deferred query => w.asksFor a query = true
  | .vacuumed query => ∃ listener vacuum, a = .unsubscribe query listener vacuum
  | .answered _ _ => False
  | .merged _ _ => False

theorem Causes.isInner {move : Move} (h : w.Causes a move) : move.IsInner := by
  cases move with
  | answered | merged => exact h
  | born | begun | deferred | vacuumed => trivial

theorem causes_of_asksFor {query : QueryId} {move : Move} (asks : w.asksFor a query = true)
    (h : move.Begins query ∨ move = .deferred query) : w.Causes a move := by
  rcases h with h | rfl
  · cases move with
    | begun request =>
      obtain rfl : request.query = query := h
      exact Or.inr (Or.inl asks)
    | born | deferred | answered | merged | vacuumed => exact h.elim
  · exact asks

theorem outstanding_proceed :
    (↑(w.proceed next).outstanding : Multiset Request) = launches next.2 + ↑w.outstanding := by
  have hmap : (next.2.map Turn.work).filterMap Turn.launched? =
      next.2.filterMap Work.launched? := by
    rw [List.filterMap_map]
    rfl
  simp only [proceed, outstanding, launches, List.filterMap_append, hmap, List.append_assoc,
    Multiset.coe_add]

theorem cache_proceed :
    (w.proceed next).cache = next.1.cache (launches next.2 + ↑w.outstanding) := by
  rw [cache, outstanding_proceed]
  rfl

theorem steps_proceed (h : w.store.Moves setup moves next) :
    Cache.Steps setup w.cache moves (w.proceed next).cache := by
  rw [cache_proceed]
  exact h _

theorem steps_proceed_own {own : Move → Prop} (h : w.store.MovesBy setup own next)
    (causes : ∀ move, own move → w.Causes a move) :
    ∃ own : Option Move, (∀ move ∈ own, w.Causes a move) ∧
      Cache.Steps setup w.cache own.toList (w.proceed next).cache := by
  obtain ⟨own, hown, hmoves⟩ := h
  exact ⟨own, fun move hmove => causes move (hown move hmove), steps_proceed hmoves⟩

theorem outstanding_eq_cons {query : QueryId} {epoch : Nat} {request : Request}
    (h : w.requests.find? (·.isFor query epoch) = some request) (idle : w.agenda = []) :
    (↑w.outstanding : Multiset Request) =
      request ::ₘ ↑(w.requests.eraseP (·.isFor query epoch)) := by
  rw [outstanding, idle, List.filterMap_nil, List.nil_append, requests_eq_cons h]

theorem outstanding_asked (signal : Signal) :
    (w.asked signal).outstanding.Perm (signal.fetched ++ w.outstanding) := by
  cases signal with
  | fetch request =>
    show (_ ++ (w.requests ++ [request])).Perm (request :: (_ ++ w.requests))
    rw [← List.append_assoc]
    exact List.perm_append_singleton _ _
  | call | timer | bind | unbind => exact .refl _

theorem store_asked (signal : Signal) : (w.asked signal).store = w.store := by
  cases signal <;> rfl

theorem cache_after (signal : Option Signal) :
    ((signal.map w.asked).getD w).cache =
      w.store.cache (↑(signal.toList.flatMap Signal.fetched) + ↑w.outstanding) := by
  cases signal with
  | none => simp [cache]
  | some signal =>
    have hperm := Multiset.coe_eq_coe.mpr (w.outstanding_asked signal)
    simp [cache, store_asked, hperm]

/-- Every act moves the cache: first by what reaches it from outside, then by at most one
move of the store's own, which the act causes. -/
theorem caused_steps_of_act (lives : w.cache.Lives) (h : w.act? setup a = some (w', signal)) :
    ∃ own : Option Move, (∀ move ∈ own, w.Causes a move) ∧
      Cache.Steps setup w.cache (w.reaching a ++ own.toList) w'.cache := by
  have still : ∃ own : Option Move, (∀ move ∈ own, w.Causes a move) ∧
      Cache.Steps setup w.cache ([] ++ own.toList) w.cache :=
    ⟨none, by simp, .refl _⟩
  cases a with
  | materialize ref =>
    obtain ⟨-, h⟩ := Option.ite_none_right_eq_some.mp h
    cases h
    exact steps_proceed_own (Store.movesBy_materialize ref) fun _ hmove => by rw [hmove]; rfl
  | subscribe query =>
    obtain ⟨-, h⟩ := Option.ite_none_right_eq_some.mp h
    cases h
    refine steps_proceed_own Store.movesBy_subscribe fun move hmove => ?_
    cases move with
    | begun request => exact Or.inl (by rw [show request.query = query from hmove])
    | born | deferred | answered | merged | vacuumed => exact hmove.elim
  | unsubscribe query listener vacuum =>
    obtain ⟨-, h⟩ := Option.ite_none_right_eq_some.mp h
    cases h
    refine steps_proceed_own (Store.movesBy_unsubscribe listener vacuum) fun _ hmove => ?_
    rw [hmove]
    exact ⟨listener, vacuum, rfl⟩
  | refetch query =>
    obtain ⟨-, h⟩ := Option.ite_none_right_eq_some.mp h
    cases h
    exact steps_proceed_own Store.movesBy_refetch fun _ =>
      causes_of_asksFor (beq_self_eq_true query)
  | watch =>
    obtain ⟨-, h⟩ := Option.ite_none_right_eq_some.mp h
    cases h
    exact still
  | unwatch listener =>
    obtain ⟨-, h⟩ := Option.ite_none_right_eq_some.mp h
    cases h
    exact still
  | emit event =>
    obtain ⟨-, h⟩ := Option.ite_none_right_eq_some.mp h
    cases h
    exact steps_proceed_own (Store.movesBy_emit fun _ => False) fun _ => False.elim
  | flush =>
    obtain ⟨-, h⟩ := Option.ite_none_right_eq_some.mp h
    cases h
    exact steps_proceed_own (Store.movesBy_flush fun _ => False) fun _ => False.elim
  | mutated name change =>
    obtain ⟨-, h⟩ := Option.ite_none_right_eq_some.mp h
    cases h
    have hstill : w.store.MovesBy setup (fun _ => False)
        (w.store, [.apply name [change]]) :=
      Store.movesBy_of_eq (fun _ => rfl) (by simp [Work.launched?])
    exact steps_proceed_own hstill fun _ => False.elim
  | answered query epoch answer =>
    simp only [act?] at h
    split at h
    · next request hfind =>
      obtain ⟨⟨hidle, hfits⟩, h⟩ := Option.ite_none_right_eq_some.mp h
      cases h
      have hasked := outstanding_eq_cons hfind (List.isEmpty_iff.mp hidle)
      have hcache : w.cache = w.store.cache
          (request ::ₘ ↑(w.requests.eraseP (·.isFor query epoch))) := by
        rw [cache, hasked]
      rw [hcache] at lives
      obtain ⟨own, hown, hsteps⟩ : ∃ own : Option Move, _ ∧ Cache.Steps setup _ _ _ :=
        Store.steps_complete lives hfits
      have hquery : request.query = query := by
        have hfor := List.find?_some hfind
        simp only [Request.isFor, Bool.and_eq_true, beq_iff_eq] at hfor
        exact hfor.1
      refine ⟨own, fun move hmove => ?_, ?_⟩
      · have hbegins := hown move hmove
        cases move with
        | begun again =>
          refine Or.inr (Or.inr ⟨epoch, answer, ?_⟩)
          rw [show again.query = request.query from hbegins, hquery]
        | born | deferred | answered | merged | vacuumed => exact hbegins.elim
      have hrest : outstanding { w with requests := w.requests.eraseP (·.isFor query epoch) } =
          w.requests.eraseP (·.isFor query epoch) := by
        rw [outstanding, List.isEmpty_iff.mp hidle]
        rfl
      rw [hcache, cache_proceed, hrest, reaching, hfind]
      exact hsteps
    · cases h
  | timedOut window =>
    simp only [act?] at h
    split at h
    · next timer hfind =>
      obtain ⟨-, h⟩ := Option.ite_none_right_eq_some.mp h
      cases h
      exact steps_proceed_own (Store.movesBy_flushWindow fun _ => False) fun _ => False.elim
    · cases h
  | tick milliseconds =>
    obtain ⟨-, h⟩ := Option.ite_none_right_eq_some.mp h
    cases h
    exact still
  | goOn =>
    simp only [act?] at h
    split at h
    · next job rest hagenda =>
      cases h
      obtain ⟨own, hown, hsteps⟩ : ∃ own : Option Move, _ ∧ ∀ rest, Cache.Steps setup _ _ _ :=
        w.store.moves_run job
      refine ⟨own, fun move hmove => ?_, ?_⟩
      · obtain ⟨query, rfl, hmove⟩ := hown move hmove
        have hasks : w.asksFor .goOn query = true := by
          simp only [asksFor, hagenda, beq_self_eq_true]
        exact causes_of_asksFor hasks hmove
      have hbefore : w.cache = w.store.cache
          (↑job.launched?.toList + ↑(outstanding { w with agenda := rest })) := by
        rw [cache, outstanding, hagenda, Multiset.coe_add]
        cases hjob : job.launched? with
        | none => simp [outstanding, Turn.launched?, hjob]
        | some request => simp [outstanding, Turn.launched?, hjob]
      rw [hbefore, cache_after, outstanding_proceed, reaching, hagenda,
        add_left_comm]
      exact hsteps _
    · cases h
  | giveBack =>
    simp only [act?] at h
    split at h
    · next rest hagenda =>
      cases h
      have hafter : cache { w with agenda := rest } = w.cache := by
        rw [cache, cache, outstanding, outstanding, hagenda]
        rfl
      rw [hafter]
      exact still
    · cases h

theorem steps_of_act (lives : w.cache.Lives) (h : w.act? setup a = some (w', signal)) :
    ∃ inner, (∀ move ∈ inner, move.IsInner) ∧
      Cache.Steps setup w.cache (w.reaching a ++ inner) w'.cache := by
  obtain ⟨own, hcauses, hsteps⟩ := caused_steps_of_act lives h
  refine ⟨own.toList, fun move hmove => ?_, hsteps⟩
  exact (hcauses move (Option.mem_toList.mp hmove)).isInner

theorem reaching_answered {query : QueryId} {epoch : Nat}
    {answer : Except Failure (QueryData × Fields)}
    (h : w.act? setup (.answered query epoch answer) = some (w', signal)) :
    ∃ request, request.query = query ∧ request.epoch = epoch ∧
      w.reaching (.answered query epoch answer) = [.answered request answer] := by
  simp only [act?] at h
  split at h
  · next request hfind =>
    have hfor := List.find?_some hfind
    simp only [Request.isFor, Bool.and_eq_true, beq_iff_eq] at hfor
    refine ⟨request, hfor.1, hfor.2, ?_⟩
    rw [reaching, hfind]
    rfl
  · cases h

end World

namespace Run

variable {setup : Setup} {history : List Happening} {w : World}

theorem lives (h : Run setup history w) : w.cache.Lives := by
  induction h with
  | start =>
    refine ⟨?_, ?_, ?_, ?_, ?_, ?_⟩
    · exact fun hq => by cases hq
    · exact fun hhome => by cases hhome
    · exact fun hq => by cases hq
    · exact fun hq => by cases hq
    · exact fun hr => absurd hr (Multiset.notMem_zero _)
    · exact fun hr => absurd hr (Multiset.notMem_zero _)
  | act _ hact ih =>
    obtain ⟨inner, -, hsteps⟩ := World.steps_of_act ih hact
    exact ih.steps hsteps

/-- What the cache is at the start, and every move keeps, it is after every run. -/
theorem cache_induction {P : Cache → Prop} (init : P ({} : World).cache)
    (step : ∀ {c move c'}, c.Lives → P c → Cache.Step setup c move c' → P c')
    (h : Run setup history w) : P w.cache := by
  induction h with
  | start => exact init
  | act hrun hact ih =>
    have hlives := hrun.lives
    obtain ⟨inner, -, hsteps⟩ := World.steps_of_act hlives hact
    have hboth := hsteps.induction (P := fun c => c.Lives ∧ P c)
      (fun _ hc hstep => ⟨hc.1.step hstep, step hc.1 hc.2 hstep⟩) ⟨hlives, ih⟩
    exact hboth.2

end Run

end LiveQuery
