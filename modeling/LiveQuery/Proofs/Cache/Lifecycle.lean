import LiveQuery.Proofs.Cache.Epochs

/-!
# Where a query stands

A query that is skipped is idle for good. Any other waits for its first fetch and is then
answered again and again, with a result or a failure. Status, data, metadata, failure and the
three flags of a query are written by different operations; `Query.Orderly` says, with one
constructor for each status, how they go together, and every move of the cache keeps it
(`Cache.Orderly.step`). Changes that are merged keep it because the index mirrors the results:
a query without data holds nothing that a change could touch.

From one act to the next the status goes along `Status.leadsTo`, with one exception: a failure
that has to be followed by another fetch is forgotten as soon as it has come
(`Run.lifecycle`, `Notes.failure_passes_unseen`).
-/

namespace LiveQuery

/-- May a status be followed by another one? -/
def Status.leadsTo : Status → Status → Bool
  | .loading, .success | .loading, .error => true
  | .success, .success | .success, .error => true
  | .error, .loading => true
  | _, _ => false

namespace Query

/-- The ways in which a query can be in order. -/
inductive Orderly (q : Query) : Prop where
  | idle (skip : q.config.skip = true) (begun : q.pending = false) (clean : q.dirty = false)
      (state : q.state = ⟨none, [], .idle, false, none⟩)
  | loading (follows : q.config.skip = false) (clean : q.pending = true → q.dirty = false)
      (state : q.state = ⟨none, [], .loading, true, none⟩)
  | success (follows : q.config.skip = false) (begun : q.pending = false)
      (busy : q.dirty = true → q.state.isFetching = true) (status : q.state.status = .success)
      (error : q.state.error = none) (single : q.state.data = none → q.descriptor.method = .get)
  | error (follows : q.config.skip = false) (begun : q.pending = false) (clean : q.dirty = false)
      (failure : Failure) (state : q.state = ⟨none, [], .error, false, some failure⟩)

/-- What the status of a query says of the rest of it, and what the rest says of the status. -/
structure Lifecycle (q : Query) : Prop where
  idle_iff : q.state.status = .idle ↔ q.config.skip = true
  idle : q.state.status = .idle → q.pending = false ∧ q.dirty = false ∧
    q.state.isFetching = false ∧ q.state.data = none ∧ q.state.error = none ∧ q.state.metadata = []
  loading : q.state.status = .loading → q.state.isFetching = true ∧ q.state.data = none ∧
    q.state.error = none ∧ q.state.metadata = []
  error_iff : q.state.status = .error ↔ q.state.error.isSome = true
  error : q.state.status = .error → q.state.data = none ∧ q.state.metadata = [] ∧
    q.state.isFetching = false ∧ q.pending = false
  success : q.state.status = .success → q.state.error = none ∧ q.pending = false ∧
    (q.state.data = none → q.descriptor.method = .get)
  pending : q.pending = true → q.state.status = .loading
  dirty : q.dirty = true → q.inFlight = true
  data : q.state.data.isSome = true → q.state.status = .success

/-- What of a query says where its fetches stand. -/
def standing (q : Query) : Config × Status × Bool × Bool × Bool :=
  (q.config, q.state.status, q.state.isFetching, q.pending, q.dirty)

variable {conv : Conventions} {q : Query} {id : ItemId} {item : Json} {effect : Effect}
variable {change : Change} {held : Bool} {answer : Except Failure (QueryData × Fields)}

theorem standing_merge : (q.merge conv id item effect).standing = q.standing := by
  obtain ⟨data, metadata, h⟩ := merge_eq conv id item q effect
  rw [h]
  rfl

/-! ## What keeps a query in order -/

theorem orderly_new (descriptor : Descriptor) (config : Config) (accepts : Json → Bool)
    (epoch : Nat) : (new descriptor config accepts epoch).Orderly := by
  cases hskip : config.skip with
  | true => exact .idle hskip (by simp [new, hskip]) rfl (by simp [new, QueryState.initial, hskip])
  | false => exact .loading hskip (fun _ => rfl) (by simp [new, QueryState.initial, hskip])

namespace Orderly

theorem busy (h : q.Orderly) (dirty : q.dirty = true) : q.inFlight = true := by
  cases h with
  | idle _ _ clean => simp [clean] at dirty
  | loading _ clean state =>
    have hbegun : q.pending = false := by
      refine Bool.eq_false_iff.mpr fun hpending => ?_
      rw [clean hpending] at dirty
      cases dirty
    simp [inFlight, hbegun, state]
  | success _ begun busy => simp [inFlight, begun, busy dirty]
  | error _ _ clean => simp [clean] at dirty

theorem not_skip (h : q.Orderly) (busy : q.inFlight = true) : q.config.skip = false := by
  cases h with
  | idle _ _ _ state => simp [inFlight, state] at busy
  | loading follows | success follows | error follows => exact follows

theorem status_of_busy (h : q.Orderly) (busy : q.inFlight = true) :
    q.state.status = .loading ∨ q.state.status = .success := by
  cases h with
  | idle _ _ _ state => simp [inFlight, state] at busy
  | loading _ _ state => exact Or.inl (by rw [state])
  | success _ _ _ status => exact Or.inr status
  | error _ _ _ _ state => simp [inFlight, state] at busy

theorem begun (h : q.Orderly) (due : q.MayBegin) : q.begun.Orderly := by
  cases h with
  | idle skip begun _ state => simp [MayBegin, skip, begun, state] at due
  | loading follows _ state =>
    exact .loading follows nofun (by simp [Query.begun, state])
  | success follows begun busy status error single =>
    exact .success follows rfl (fun _ => rfl) (by simp [Query.begun, status])
      (by simp [Query.begun, status, error]) single
  | error follows _ _ failure state =>
    exact .loading follows nofun (by simp [Query.begun, state])

theorem deferred (h : q.Orderly) (busy : q.inFlight = true) : (marked true q).Orderly := by
  simp only [inFlight, Bool.and_eq_true, Bool.not_eq_true'] at busy
  cases h with
  | idle _ _ _ state => simp [state] at busy
  | loading follows _ state =>
    refine .loading follows (fun hpending => ?_) state
    rw [show q.pending = true from hpending] at busy
    cases busy.1
  | success follows begun _ status error single =>
    exact .success follows begun (fun _ => busy.2) status error single
  | error _ _ _ _ state => simp [state] at busy

theorem answered (h : q.Orderly) (busy : q.inFlight = true) :
    (marked false (q.answered answer)).Orderly := by
  have hfollows := h.not_skip busy
  simp only [inFlight, Bool.and_eq_true, Bool.not_eq_true'] at busy
  cases answer with
  | ok result =>
    refine .success hfollows busy.1 ?_ rfl rfl ?_
    · intro dirty
      cases dirty
    · intro missing
      cases missing
  | error failure => exact .error hfollows busy.1 rfl failure rfl

theorem merged (h : q.Orderly) (fits : q.Fits) (mirrors : q.Mirrors conv id held) :
    (q.merged conv id held change).Orderly := by
  cases h with
  | idle skip begun clean state =>
    rw [merged_of_none mirrors (by rw [state])]
    exact .idle skip begun clean state
  | loading follows clean state =>
    rw [merged_of_none mirrors (by rw [state])]
    exact .loading follows clean state
  | error follows begun clean failure state =>
    rw [merged_of_none mirrors (by rw [state])]
    exact .error follows begun clean failure state
  | success follows begun busy status error single =>
    have hsingle : (q.merged conv id held change).state.data = none →
        q.descriptor.method = .get := by
      intro hnone
      cases hmerges : q.merges with
      | false =>
        rw [Query.merged, effect_eq_unaffected hmerges] at hnone
        exact single hnone
      | true =>
        cases hmethod : q.descriptor.method with
        | get => rfl
        | find =>
          have hfetched : q.state.data.isSome = true := by
            by_contra hnot
            have hget := single (by simpa using hnot)
            rw [hmethod] at hget
            cases hget
          have hfollows : q.Follows := ⟨hmerges, hmethod, hfetched⟩
          have hstays : (q.merged conv id held change).Follows := hfollows.merged fits
          have hshown := hstays.fetched
          rw [hnone] at hshown
          cases hshown
    obtain ⟨data, metadata, hmerged⟩ := merge_eq conv id change.item q (q.effect held change)
    rw [Query.merged, hmerged] at hsingle ⊢
    exact .success follows begun busy status error hsingle

theorem toLifecycle (h : q.Orderly) : q.Lifecycle := by
  have hbusy := h.busy
  cases h with
  | idle skip begun clean state =>
    constructor <;> simp [state, skip, begun, clean]
  | loading follows clean state =>
    exact {
      idle_iff := by simp [state, follows]
      idle := by simp [state]
      loading := by simp [state]
      error_iff := by simp [state]
      error := by simp [state]
      success := by simp [state]
      pending := by simp [state]
      dirty := hbusy
      data := by simp [state] }
  | success follows begun busy status error single =>
    exact {
      idle_iff := by simp [status, follows]
      idle := by simp [status]
      loading := by simp [status]
      error_iff := by simp [status, error]
      error := by simp [status]
      success := fun _ => ⟨error, begun, single⟩
      pending := by simp [begun]
      dirty := hbusy
      data := fun _ => status }
  | error follows begun clean failure state =>
    exact {
      idle_iff := by simp [state, follows]
      idle := by simp [state]
      loading := by simp [state]
      error_iff := by simp [state]
      error := by simp [state, begun]
      success := by simp [state]
      pending := by simp [begun]
      dirty := hbusy
      data := by simp [state] }

end Orderly

/-- An answer ends in success or failure, unless a failure is followed by another fetch at
once. -/
theorem status_settled (again : Bool) :
    (q.settled answer again).state.status = .success ∨
      (q.settled answer again).state.status = .error ∨
      (q.settled answer again).state.status = .loading ∧ again = true ∧
        ∃ failure, answer = .error failure := by
  cases answer with
  | ok result =>
    refine Or.inl ?_
    unfold settled
    split <;> rfl
  | error failure =>
    cases again with
    | false => exact Or.inr (Or.inl rfl)
    | true => exact Or.inr (Or.inr ⟨rfl, rfl, failure, rfl⟩)

end Query

/-! ## Moves -/

theorem Service.get?_mergeAll_of_not_merges {conv : Conventions} {s : Service} {x : QueryId}
    {q : Query} (found : s.queries.get? x = some q) (not : q.merges = false)
    (changes : List Change) :
    (s.mergeAll conv changes).service.queries.get? x = some q := by
  refine mergeAll_induction (P := fun s => s.queries.get? x = some q) found ?_ changes
  intro s id change _ hq
  rw [get?_queries_mergeChange, hq, Option.map_some, effectOn, Query.effect_eq_unaffected not]
  rfl

theorem Service.orderly_mergeAll {conv : Conventions} {s : Service} (mirror : s.Mirror conv)
    (h : ∀ query q, s.queries.get? query = some q → q.Orderly) (changes : List Change) :
    ∀ query q, (s.mergeAll conv changes).service.queries.get? query = some q → q.Orderly := by
  have hboth := mergeAll_induction
    (P := fun s => s.Mirror conv ∧ ∀ query q, s.queries.get? query = some q → q.Orderly)
    ⟨mirror, h⟩ (fun s id change (hadmits : s.admits? conv change = some id) hs => ?_) changes
  · exact hboth.2
  · refine ⟨hs.1.mergeChange (admits?_eq_some.mp hadmits).1, fun query p hp => ?_⟩
    rw [get?_queries_mergeChange] at hp
    obtain ⟨q, hq, rfl⟩ := Option.map_eq_some_iff.mp hp
    exact (hs.2 query q hq).merged (hs.1.fits hq) (hs.1.mirrors id hq)

namespace Cache

variable {setup : Setup} {c c' : Cache} {move : Move} {moves : List Move}
variable {name : String} {x : QueryId} {p q : Query}

theorem Single.inFlight_of_outstanding {request : Request} (h : c.Single)
    (hq : c.find? name x = some q) (asked : request ∈ c.outstanding)
    (isFor : request.isFor x q.epoch = true) : q.inFlight = true := by
  have hpos : 0 < c.flights x q.epoch := Multiset.countP_pos.mpr ⟨request, asked, isFor⟩
  rw [h _ _ _ hq] at hpos
  by_contra hidle
  rw [if_neg hidle] at hpos
  exact Nat.lt_irrefl 0 hpos

theorem map_standing_merged (setup : Setup) (c : Cache) (service : String)
    (changes : List Change) (name : String) (x : QueryId) :
    ((c.set service ((c.service service).mergeAll setup.conventions changes).service).find?
      name x).map Query.standing = (c.find? name x).map Query.standing := by
  rw [find?_set]
  split
  · next hname =>
    subst hname
    exact Service.map_get?_mergeAll (fun _ _ _ _ => Query.standing_merge) changes x
  · rfl

/-- Are all queries in order, and what has to agree with them? -/
structure Orderly (conv : Conventions) (c : Cache) : Prop where
  lives : c.Lives
  single : c.Single
  mirror : c.Mirror conv
  queries : ∀ {name query q}, c.find? name query = some q → q.Orderly

theorem Orderly.step (h : c.Orderly setup.conventions) (hstep : Step setup c move c') :
    c'.Orderly setup.conventions := by
  refine ⟨h.lives.step hstep, h.single.step h.lives hstep, h.mirror.step h.lives hstep, ?_⟩
  intro name x p hp
  cases hstep with
  | born =>
    rcases find?_adopt.mp hp with ⟨-, -, rfl⟩ | ⟨-, hp⟩
    · exact Query.orderly_new _ _ _ _
    · exact h.queries hp
  | begun hhome found free due =>
    rcases (h.lives.find?_alters hhome Service.alters_fetching).mp hp with
      ⟨rfl, -, q, hq, rfl⟩ | ⟨-, hp⟩
    · obtain rfl := Option.some.inj (found.symm.trans hq)
      exact (h.queries hq).begun due
    · exact h.queries hp
  | deferred hhome found follows busy =>
    rcases (h.lives.find?_alters hhome Service.alters_mark).mp hp with
      ⟨rfl, -, q, hq, rfl⟩ | ⟨-, hp⟩
    · obtain rfl := Option.some.inj (found.symm.trans hq)
      exact (h.queries hq).deferred busy
    · exact h.queries hp
  | @landed request rest answer asked fits current =>
    obtain ⟨q, hq, hepoch⟩ := current
    rcases (h.lives.find?_alters (h.lives.home hq) Service.alters_answered).mp hp with
      ⟨rfl, -, q', hq', rfl⟩ | ⟨-, hp⟩
    · obtain rfl := Option.some.inj (hq.symm.trans hq')
      refine (h.queries hq).answered (h.single.inFlight_of_outstanding hq
        (asked ▸ Multiset.mem_cons_self request rest) ?_)
      simp [Request.isFor, hepoch]
    · exact h.queries hp
  | dropped => exact h.queries hp
  | @merged service changes =>
    rw [find?_set] at hp
    split at hp
    · exact Service.orderly_mergeAll (h.mirror service) (fun _ _ => h.queries) changes x p hp
    · exact h.queries hp
  | vacuumed hhome vacuum => exact h.queries ((find?_retire h.lives hhome vacuum).mp hp).2

theorem Orderly.steps (h : c.Orderly setup.conventions) (hsteps : Steps setup c moves c') :
    c'.Orderly setup.conventions :=
  hsteps.induction (fun _ h hstep => h.step hstep) h

theorem Orderly.exists_outstanding_of_dirty (h : c.Orderly setup.conventions)
    (hq : c.find? name x = some q) (dirty : q.dirty = true) :
    ∃ request ∈ c.outstanding, request.isFor x q.epoch = true := by
  have hcount := h.single _ _ _ hq
  rw [if_pos ((h.queries hq).busy dirty)] at hcount
  have hpos : 0 < c.flights x q.epoch := by omega
  exact Multiset.countP_pos.mp hpos

/-- What a move can do to a query that lives on. -/
inductive Alteration (x : QueryId) (q : Query) : Move → Query → Prop where
  | unaltered {move : Move} : Alteration x q move q
  | begun {request : Request} (asked : request.query = x) :
      Alteration x q (.begun request) q.begun
  | deferred : Alteration x q (.deferred x) (Query.marked true q)
  | answered {request : Request} {answer : Except Failure (QueryData × Fields)}
      (isFor : request.isFor x q.epoch = true) :
      Alteration x q (.answered request answer) (Query.marked false (q.answered answer))
  | merged {service : String} {changes : List Change} {p : Query}
      (standing : p.standing = q.standing) (still : q.merges = false → p = q) :
      Alteration x q (.merged service changes) p

theorem Step.alteration (lives : c.Lives) (h : Step setup c move c')
    (hq : c.find? name x = some q) (hp : c'.find? name x = some p) : Alteration x q move p := by
  have hsame : c.find? name x = some p → Alteration x q move p := by
    intro hp
    obtain rfl := Option.some.inj (hq.symm.trans hp)
    exact .unaltered
  cases h with
  | born new =>
    rcases find?_adopt.mp hp with ⟨-, rfl, -⟩ | ⟨-, hp⟩
    · rw [lives.find?_eq_none new] at hq
      cases hq
    · exact hsame hp
  | begun hhome =>
    rcases (lives.find?_alters hhome Service.alters_fetching).mp hp with
      ⟨rfl, rfl, q', hq', rfl⟩ | ⟨-, hp⟩
    · obtain rfl := Option.some.inj (hq.symm.trans hq')
      exact .begun rfl
    · exact hsame hp
  | deferred hhome =>
    rcases (lives.find?_alters hhome Service.alters_mark).mp hp with
      ⟨rfl, rfl, q', hq', rfl⟩ | ⟨-, hp⟩
    · obtain rfl := Option.some.inj (hq.symm.trans hq')
      exact .deferred
    · exact hsame hp
  | @landed request rest answer asked fits current =>
    obtain ⟨r, hr, hepoch⟩ := current
    rcases (lives.find?_alters (lives.home hr) Service.alters_answered).mp hp with
      ⟨rfl, rfl, q', hq', rfl⟩ | ⟨-, hp⟩
    · obtain rfl := Option.some.inj (hq.symm.trans hq')
      obtain rfl := Option.some.inj (hq.symm.trans hr)
      exact .answered (by simp [Request.isFor, hepoch])
    · exact hsame hp
  | dropped => exact hsame hp
  | @merged service changes =>
    have hstanding := map_standing_merged setup c service changes name x
    rw [hp, hq] at hstanding
    refine .merged (Option.some.inj hstanding) fun hnot => ?_
    rw [find?_set] at hp
    split at hp
    · next hname =>
      subst hname
      rw [Service.get?_mergeAll_of_not_merges hq hnot] at hp
      exact (Option.some.inj hp).symm
    · exact Option.some.inj (hp.symm.trans hq)
  | vacuumed hhome vacuum => exact hsame ((find?_retire lives hhome vacuum).mp hp).2

theorem Steps.related {R : Query → Query → Prop} {epoch : Nat} (refl : ∀ q, R q q)
    (trans : ∀ {p q r}, R p q → R q r → R p r)
    (step : ∀ {move p q}, move ∈ moves → Alteration x p move q → p.epoch = epoch → R p q)
    (lives : c.Lives) (h : Steps setup c moves c') (stays : .vacuumed x ∉ moves)
    (hq : c.find? name x = some q) (hp : c'.find? name x = some p) (begins : q.epoch = epoch) :
    R q p := by
  induction h generalizing q with
  | refl c =>
    obtain rfl := Option.some.inj (hq.symm.trans hp)
    exact refl q
  | head hstep _ ih =>
    obtain ⟨r, hr, hlife⟩ := hstep.life_of_not_vacuumed lives
      (fun e => stays (e ▸ List.mem_cons_self)) hq
    have hfirst := step List.mem_cons_self (hstep.alteration lives hq hr) begins
    have hepoch : r.epoch = epoch := (congrArg Life.epoch hlife).trans begins
    exact trans hfirst (ih (fun hm => step (List.mem_cons_of_mem _ hm)) (lives.step hstep)
      (fun hm => stays (List.mem_cons_of_mem _ hm)) hr hp hepoch)

theorem Steps.status_eq (lives : c.Lives) (h : Steps setup c moves c')
    (hq : c.find? name x = some q) (hp : c'.find? name x = some p)
    (stays : .vacuumed x ∉ moves)
    (unanswered : ∀ request answer, .answered request answer ∈ moves →
      request.isFor x q.epoch = false) :
    p.state.status = q.state.status ∨ q.state.status = .error ∧ p.state.status = .loading := by
  refine h.related (R := fun q p => p.state.status = q.state.status ∨
    q.state.status = .error ∧ p.state.status = .loading) (fun q => Or.inl rfl) ?_ ?_ lives stays
    hq hp rfl
  · rintro p q r (hpq | ⟨hp, hq⟩) (hqr | ⟨hq', hr⟩)
    · exact Or.inl (hqr.trans hpq)
    · exact Or.inr ⟨hpq ▸ hq', hr⟩
    · exact Or.inr ⟨hp, hqr.trans hq⟩
    · rw [hq] at hq'
      cases hq'
  · intro move p r hmem halters hepoch
    cases halters with
    | unaltered | deferred => exact Or.inl rfl
    | begun =>
      by_cases hfailed : p.state.status = .error
      · exact Or.inr ⟨hfailed, if_pos hfailed⟩
      · exact Or.inl (if_neg hfailed)
    | answered isFor =>
      rw [hepoch, unanswered _ _ hmem] at isFor
      cases isFor
    | merged standing => exact Or.inl (congrArg (·.2.1) standing)

end Cache

/-! ## Runs -/

variable {setup : Setup} {history : List Happening} {w : World} {h : Happening}
variable {query : QueryId} {p q : Query} {answer : Except Failure (QueryData × Fields)}

theorem Run.orderly (run : Run setup history w) : w.cache.Orderly setup.conventions :=
  run.cache_induction (P := Cache.Orderly setup.conventions)
    ⟨(Run.start : Run setup [] {}).lives, (fun _ _ _ hq => by cases hq),
      fun _ => Service.Mirror.empty, fun hq => by cases hq⟩
    fun _ ho hstep => ho.step hstep

theorem Act.isAnswerTo_eq_true {a : Act} {epoch : Nat} (h : a.isAnswerTo query epoch = true) :
    ∃ answer, a = .answered query epoch answer := by
  cases a with
  | answered x e answer =>
    simp only [isAnswerTo, Bool.and_eq_true, beq_iff_eq] at h
    exact ⟨answer, by rw [h.1, h.2]⟩
  | materialize | subscribe | unsubscribe | refetch | watch | unwatch | emit | flush | mutated
  | timedOut | tick | goOn | giveBack => cases h

namespace Happening.Occurs

theorem isFor_eq_false {own : Option Move} {request : Request} {epoch : Nat}
    (occurs : h.Occurs setup) (causes : ∀ move ∈ own, h.before.Causes h.act move)
    (unanswered : h.act.isAnswerTo query epoch = false)
    (mem : .answered request answer ∈ h.before.reaching h.act ++ own.toList) :
    request.isFor query epoch = false := by
  rcases List.mem_append.mp mem with hmem | hmem
  · rw [occurs.act_of_mem_reaching hmem] at unanswered
    exact unanswered
  · exact (causes _ (Option.mem_toList.mp hmem)).elim

theorem exists_request_of_answered (occurs : h.Occurs setup)
    (lives : h.before.store.query? query = some q)
    (answers : h.act = .answered query q.epoch answer) :
    ∃ request ∈ h.before.outstanding, request.isFor query q.epoch = true ∧
      h.before.store.isCurrent request = true ∧
      h.before.store.homes.get? query = some request.service ∧
      h.after = { h.before with
        requests := h.before.requests.eraseP (·.isFor query q.epoch) }.proceed
          (h.before.store.complete setup request answer) := by
  have hact := occurs.act
  rw [answers] at hact
  obtain ⟨request, hmem, hfor, hafter, -⟩ := World.answered_eq hact
  have hasked : request ∈ h.before.outstanding := List.mem_append_right _ hmem
  obtain ⟨name, hfind⟩ := occurs.lives.query?_eq_some.mp (World.query?_cache.trans lives)
  obtain ⟨rfl, hepoch⟩ : request.query = query ∧ request.epoch = q.epoch := by
    simpa [Request.isFor] using hfor
  have hservice : request.service = name := occurs.lives.service_eq hasked hfind hepoch.symm
  exact ⟨request, hasked, hfor,
    Store.isCurrent_iff.mpr (occurs.lives.isCurrent hasked hfind hepoch.symm),
    hservice ▸ occurs.lives.home hfind, hafter⟩

theorem inFlight_of_answered (occurs : h.Occurs setup) (single : h.before.cache.Single)
    (lives : h.before.store.query? query = some q)
    (answers : h.act = .answered query q.epoch answer) : q.inFlight = true := by
  obtain ⟨request, hasked, hfor, -⟩ := occurs.exists_request_of_answered lives answers
  obtain ⟨name, hfind⟩ := occurs.lives.query?_eq_some.mp (World.query?_cache.trans lives)
  exact single.inFlight_of_outstanding hfind hasked hfor

theorem settled_of_answered (occurs : h.Occurs setup)
    (lives : h.before.store.query? query = some q)
    (answers : h.act = .answered query q.epoch answer) :
    h.after.store.query? query =
      some (q.settled answer (q.dirty && h.before.store.hasListener query)) := by
  obtain ⟨request, -, hfor, hcurrent, hhome, hafter⟩ :=
    occurs.exists_request_of_answered lives answers
  obtain ⟨rfl, -⟩ : request.query = query ∧ request.epoch = q.epoch := by
    simpa [Request.isFor] using hfor
  rw [hafter]
  exact (Store.query?_complete hcurrent hhome lives).trans (if_pos rfl)

theorem outstanding_of_begun {request : Request} (begun : request ∈ h.begun) :
    request ∈ h.after.outstanding := by
  obtain ⟨turn, hmem, hturn⟩ := List.mem_filterMap.mp begun
  exact List.mem_append_left _ (List.mem_filterMap.mpr ⟨turn, List.mem_of_mem_take hmem, hturn⟩)

/-- From before an act to after it the status of a life goes along `Status.leadsTo` or stays
as it is, unless a failure that comes has to be followed by another fetch. -/
theorem status_cases (occurs : h.Occurs setup) (orderly : h.before.cache.Orderly setup.conventions)
    (before : h.before.store.query? query = some p) (after : h.after.store.query? query = some q) :
    q.state.status = p.state.status ∨ p.state.status.leadsTo q.state.status = true ∨
      p.state.status = .success ∧ q.state.status = .loading ∧ p.dirty = true ∧
        h.before.store.hasListener query = true ∧
        ∃ failure, h.act = .answered query p.epoch (.error failure) ∧
          q = (Query.marked false (p.failed failure)).begun := by
  obtain ⟨name, hp, hq, -⟩ := occurs.exists_find? before after
  cases hanswered : h.act.isAnswerTo query p.epoch with
  | true =>
    obtain ⟨answer, hanswers⟩ := Act.isAnswerTo_eq_true hanswered
    have hsettled := (occurs.settled_of_answered before hanswers).symm.trans after
    obtain rfl := Option.some.inj hsettled
    have hbusy := occurs.inFlight_of_answered orderly.single before hanswers
    have hstatus := (orderly.queries hp).status_of_busy hbusy
    rcases @Query.status_settled p answer
      (p.dirty && h.before.store.hasListener query) with hnow | hnow | ⟨hnow, hagain, failure, rfl⟩
    · rw [hnow]
      rcases hstatus with hbefore | hbefore
      · exact Or.inr (Or.inl (by rw [hbefore]; rfl))
      · exact Or.inl hbefore.symm
    · rw [hnow]
      rcases hstatus with hbefore | hbefore
      · exact Or.inr (Or.inl (by rw [hbefore]; rfl))
      · exact Or.inr (Or.inl (by rw [hbefore]; rfl))
    · rw [hnow]
      rcases hstatus with hbefore | hbefore
      · exact Or.inl hbefore.symm
      · have hfollowed : p.settled (.error failure)
            (p.dirty && h.before.store.hasListener query) =
            (Query.marked false (p.failed failure)).begun := if_pos hagain
        rw [Bool.and_eq_true] at hagain
        exact Or.inr (Or.inr
          ⟨hbefore, rfl, hagain.1, hagain.2, failure, hanswers, hfollowed⟩)
  | false =>
    obtain ⟨own, hcauses, hsteps, -⟩ := occurs.exists_own
    rcases hsteps.status_eq occurs.lives hp hq (occurs.not_vacuumed hsteps after)
      (fun _ _ => occurs.isFor_eq_false hcauses hanswered) with hsame | ⟨hfailed, hloading⟩
    · exact Or.inl hsame
    · exact Or.inr (Or.inl (by rw [hfailed, hloading]; rfl))

theorem not_skip_of_begun {request : Request} (occurs : h.Occurs setup)
    (orderly : h.after.cache.Orderly setup.conventions) (begun : request ∈ h.begun) :
    ∃ q, h.after.store.query? request.query = some q ∧ q.epoch = request.epoch ∧
      q.config.skip = false := by
  obtain ⟨q, hq, hepoch⟩ := occurs.living_of_begun begun
  obtain ⟨name, hfind⟩ := orderly.lives.query?_eq_some.mp (World.query?_cache.trans hq)
  refine ⟨q, hq, hepoch, (orderly.queries hfind).not_skip ?_⟩
  refine orderly.single.inFlight_of_outstanding hfind (outstanding_of_begun begun) ?_
  simp [Request.isFor, hepoch]

end Happening.Occurs

theorem Run.orderly_around (run : Run setup history w) (mem : h ∈ history) :
    h.before.cache.Orderly setup.conventions ∧ h.after.cache.Orderly setup.conventions := by
  obtain ⟨before, since, rfl⟩ := List.append_of_mem mem
  have huntil := run.until
  exact ⟨(run_concat.mp huntil).1.orderly, huntil.orderly⟩

/-- Whatever has happened, the parts of a query go together as its status says, a dirty query
has a fetch under way, and no fetch has begun for one that is skipped. From one act to the next
the status of a life moves as `Status.leadsTo` allows; only where a failure comes for a query
that has succeeded before, while another fetch of it has been asked for and somebody listens,
the failure is followed by that fetch in the same transition: the query fails and begins again,
which leaves it loading. -/
theorem Run.lifecycle (run : Run setup history w) :
    (∀ query q, w.store.query? query = some q → q.Lifecycle ∧
      (q.dirty = true → ∃ request ∈ w.outstanding, request.isFor query q.epoch = true)) ∧
    (∀ h ∈ history, ∀ request ∈ h.begun, ∃ q, h.after.store.query? request.query = some q ∧
      q.epoch = request.epoch ∧ q.config.skip = false) ∧
    ∀ h ∈ history, ∀ query p q, h.before.store.query? query = some p →
      h.after.store.query? query = some q →
      q.state.status = p.state.status ∨ p.state.status.leadsTo q.state.status = true ∨
        p.state.status = .success ∧ q.state.status = .loading ∧ p.dirty = true ∧
          h.before.store.hasListener query = true ∧
          ∃ failure, h.act = .answered query p.epoch (.error failure) ∧
            q = (Query.marked false (p.failed failure)).begun := by
  refine ⟨fun query q lives => ?_, fun h hmem request begun => ?_,
    fun h hmem query p q before after => ?_⟩
  · have horderly := run.orderly
    obtain ⟨name, hfind⟩ := horderly.lives.query?_eq_some.mp (World.query?_cache.trans lives)
    exact ⟨(horderly.queries hfind).toLifecycle, horderly.exists_outstanding_of_dirty hfind⟩
  · exact (run.occurs h hmem).not_skip_of_begun (run.orderly_around hmem).2 begun
  · exact (run.occurs h hmem).status_cases (run.orderly_around hmem).1 before after

namespace Notes

def pressing : World :=
  opened.play {} [.refetch ideas.id, .goOn, .giveBack, .goOn, .refetch ideas.id]

def failing : Happening where
  before := pressing
  act := .answered ideas.id 1 (.error (.transport "down"))
  signal := none
  after := pressing.play {} [.answered ideas.id 1 (.error (.transport "down"))]

theorem run_failing : ∃ history, Run {} (history ++ [failing]) failing.after := by
  obtain ⟨history, hrun⟩ := run_opened
  obtain ⟨signal, hact⟩ := World.act?_eq_some_play
    (show (pressing.act? {} failing.act).isSome = true by decide +kernel)
  obtain ⟨-, -, -, -, rfl⟩ := World.answered_eq hact
  exact ⟨_, .act (hrun.play _) hact⟩

theorem ideas_wanted_twice : ∃ q, pressing.store.query? ideas.id = some q ∧
    q.epoch = 1 ∧ q.state.status = .success ∧ q.dirty = true := by
  have hlives : (pressing.store.query? ideas.id).any (fun q =>
      q.epoch == 1 && q.state.status == .success && q.dirty) = true := by decide +kernel
  obtain ⟨q, hq, h⟩ := (Option.any_eq_true _ _).mp hlives
  simp only [Bool.and_eq_true, beq_iff_eq] at h
  exact ⟨q, hq, h.1.1, h.1.2, h.2⟩

/-- The ideas that have succeeded and are asked for twice more have a fetch under way, data, and
no failure. -/
theorem ideas_in_order : ∃ q, pressing.store.query? ideas.id = some q ∧
    q.state.status = .success ∧ q.state.error = none ∧ q.state.data.isSome = true ∧
    ∃ request ∈ pressing.outstanding, request.isFor ideas.id q.epoch = true := by
  obtain ⟨history, hrun⟩ := run_failing
  obtain ⟨q, hq, -, hstatus, hdirty⟩ := ideas_wanted_twice
  obtain ⟨hlifecycle, houtstanding⟩ := (Run.lifecycle (run_concat.mp hrun).1).1 ideas.id q hq
  obtain ⟨herror, -, hsingle⟩ := hlifecycle.success hstatus
  have hfind : (pressing.store.query? ideas.id).any (·.descriptor.method == .find) = true := by
    decide +kernel
  refine ⟨q, hq, hstatus, herror, ?_, houtstanding hdirty⟩
  rw [Option.isSome_iff_ne_none]
  intro hnone
  rw [hq, Option.any_some, hsingle hnone] at hfind
  cases hfind

/-- When the fetch fails, the ideas go from success to loading and are never seen to have
failed. -/
theorem failure_passes_unseen :
    ∃ history p q, Run {} (history ++ [failing]) failing.after ∧
      failing.before.store.query? ideas.id = some p ∧
      failing.after.store.query? ideas.id = some q ∧ p.epoch = q.epoch ∧
      p.state.status = .success ∧ q.state.status = .loading ∧
      ¬(q.state.status = p.state.status ∨ p.state.status.leadsTo q.state.status = true) := by
  obtain ⟨history, hrun⟩ := run_failing
  obtain ⟨p, hp, hepoch, hstatus, -⟩ := ideas_wanted_twice
  have hlives : (failing.after.store.query? ideas.id).any (fun q =>
      q.epoch == 1 && q.state.status == .loading) = true := by decide +kernel
  obtain ⟨q, hq, h⟩ := (Option.any_eq_true _ _).mp hlives
  simp only [Bool.and_eq_true, beq_iff_eq] at h
  refine ⟨history, p, q, hrun, hp, hq, hepoch.trans h.1.symm, hstatus, h.2, ?_⟩
  rw [hstatus, h.2]
  decide

end Notes

end LiveQuery
