import LiveQuery.Proofs.Store.Abandonment
import LiveQuery.Proofs.Store.Immediacy

/-!
# Queries that are fetched once

Four things begin a fetch: somebody comes to listen to a query that waits for its first result,
wants it anew or has failed; somebody asks; changes call for it; or the fetch under way has been
answered and another was asked for meanwhile. Of a cache-first query that events do not fetch again
none is left but the first fetch, as long as nobody asks and nothing fails (`World.Spares`). So
there is at most one fetch in the whole of its life, whoever comes and goes
(`Run.cache_first_fetched_once`).
-/

namespace LiveQuery

def begunIn (history : List Happening) : List Request := history.flatMap Happening.begun

/-- Has a query that lives, and of which so many fetches have begun, no reason for another one,
except that none has begun? -/
structure World.Spares (w : World) (query : QueryId) (q : Query) (count : Nat) : Prop where
  clean : q.dirty = false
  sound : q.state.status ≠ .error
  first : q.pending = true → count = 0
  unplanned : .work (.refetch query) ∉ w.agenda

/-- Has at most one fetch of a life begun, and no other one is due if the query is still living that
life? -/
def World.SparesLife (w : World) (query : QueryId) (q : Query) (count : Nat) : Prop :=
  count ≤ 1 ∧ ∀ p, w.store.query? query = some p → p.epoch = q.epoch →
    p.life = q.life ∧ w.Spares query p count

variable {setup : Setup} {history before since : List Happening} {w : World}
variable {h last birth : Happening} {query : QueryId} {p q : Query} {request : Request}
variable {epoch count : Nat}

theorem begunIn_concat : begunIn (history ++ [last]) = begunIn history ++ last.begun := by
  simp [begunIn]

theorem Store.wantsFetch_of_launched {s : Store}
    (launched : request ∈ (s.subscribe query).2.2.filterMap Work.launched?) :
    ∃ q, s.query? query = some q ∧ q.wantsFetch = true := by
  unfold subscribe at launched
  dsimp only at launched
  split at launched
  · next hwants =>
    have hwants : ((s.query? query).map Query.wantsFetch).getD false = true := hwants
    cases hq : s.query? query with
    | none =>
      rw [hq] at hwants
      cases hwants
    | some q =>
      rw [hq] at hwants
      exact ⟨q, rfl, hwants⟩
  · cases launched

namespace Happening.Occurs

theorem eq_new_of_births (occurs : h.Occurs setup) (births : h.Births query q) :
    ∃ ref : QueryRef, q = Query.new ref.descriptor ref.config
      (Store.filterOf setup ref.descriptor ref.config) h.before.store.nextEpoch := by
  obtain ⟨asked, hasks, -⟩ := occurs.of_born births.1 births.2
  obtain ⟨own, -, hsteps, -⟩ := occurs.exists_own
  have hown : Cache.Steps setup h.before.cache own.toList h.after.cache := by
    rw [hasks] at hsteps
    exact hsteps
  obtain ⟨name, hq⟩ := occurs.lives_after.query?_eq_some.mp (World.query?_cache.trans births.2)
  have hnew : h.before.cache.find? name query = none :=
    occurs.lives.find?_eq_none (World.query?_cache.trans births.1)
  cases own with
  | none =>
    obtain ⟨p, hp, -⟩ := hown.life_of_not_born occurs.lives (fun _ _ => nofun) hq
    rw [hnew] at hp
    cases hp
  | some move =>
    rcases hown.step_of_singleton.born_or_life occurs.lives hq with ⟨ref, -, heq⟩ | ⟨p, hp, -⟩
    · exact ⟨ref, heq⟩
    · rw [hnew] at hp
      cases hp

theorem wantsFetch_of_begun (occurs : h.Occurs setup) (begun : request ∈ h.begun)
    (subscribes : h.act = .subscribe query) :
    ∃ q, h.before.store.query? query = some q ∧ q.wantsFetch = true := by
  have hact := occurs.act
  rw [subscribes] at hact
  obtain ⟨-, hafter⟩ := Option.ite_none_right_eq_some.mp hact
  have hworld : h.before.proceed (h.before.store.subscribe query).2 = h.after :=
    congrArg Prod.fst (Option.some.inj hafter)
  have hbegun : h.begun = (h.before.store.subscribe query).2.2.filterMap Work.launched? := by
    refine Happening.begun_eq ?_
    rw [← hworld, subscribes]
    rfl
  exact Store.wantsFetch_of_launched (hbegun ▸ begun)

theorem dirty_of_begun {answer : Except Failure (QueryData × Fields)} (occurs : h.Occurs setup)
    (single : h.before.cache.Single) (begun : request ∈ h.begun)
    (answers : h.act = .answered query epoch answer)
    (lives : h.before.store.query? query = some p) : p.dirty = true := by
  have hact := occurs.act
  rw [answers] at hact
  obtain ⟨answered, -, hfor, hafter, -⟩ := World.answered_eq hact
  obtain ⟨rfl, rfl⟩ : answered.query = query ∧ answered.epoch = epoch := by
    simpa [Request.isFor] using hfor
  by_cases hcurrent : h.before.store.isCurrent answered = true
  · obtain ⟨q, hq, hepoch⟩ := (@Store.isCurrent_iff _ h.before.outstanding _).mp hcurrent
    have hfound := occurs.lives.query?_eq_some.mpr ⟨_, hq⟩
    obtain rfl := Option.some.inj ((World.query?_cache.trans lives).symm.trans hfound)
    rw [← hepoch] at answers
    obtain ⟨-, ⟨service, hbegun⟩, -⟩ := occurs.of_answered single lives answers
    rw [hbegun] at begun
    split at begun
    · next hagain => exact ((Bool.and_eq_true _ _).mp hagain).1
    · cases begun
  · have hbegun : h.begun = (h.before.store.complete setup answered answer).2.filterMap
        Work.launched? := by
      refine Happening.begun_eq ?_
      rw [hafter, answers]
      rfl
    rw [hbegun, Store.complete, if_neg hcurrent] at begun
    cases begun

theorem epoch_ne_of_ended (occurs : h.Occurs setup) (past : epoch < h.before.store.nextEpoch)
    (ended : ∀ p, h.before.store.query? query = some p → p.epoch ≠ epoch)
    (after : h.after.store.query? query = some q) : q.epoch ≠ epoch := by
  cases hbefore : h.before.store.query? query with
  | none =>
    obtain ⟨ref, -, -, hlater, -⟩ := occurs.of_born hbefore after
    exact (Nat.lt_of_lt_of_le past hlater).ne'
  | some p =>
    have hlife := occurs.life_eq hbefore after
    rw [show q.epoch = p.epoch from congrArg Life.epoch hlife]
    exact ended p hbefore

theorem pending_before (occurs : h.Occurs setup) (before : h.before.store.query? query = some p)
    (after : h.after.store.query? query = some q) (pending : q.pending = true) :
    p.pending = true := by
  obtain ⟨own, -, hsteps, -⟩ := occurs.exists_own
  obtain ⟨name, hp, hq, -⟩ := occurs.exists_find? before after
  refine hsteps.related (R := fun p q => q.pending = true → p.pending = true)
    (fun _ => id) (fun hpq hqr hr => hpq (hqr hr)) ?_ occurs.lives
    (occurs.not_vacuumed hsteps after) hp hq rfl pending
  intro move p r hmem halters _ hr
  cases halters with
  | unaltered | deferred => exact hr
  | begun => cases hr
  | @answered _ answer =>
    cases answer with
    | ok | error => exact hr
  | merged standing => exact (congrArg (·.2.2.2.1) standing).symm.trans hr

theorem status_ne_error (occurs : h.Occurs setup)
    (before : h.before.store.query? query = some p) (after : h.after.store.query? query = some q)
    (unanswered : h.act.isAnswerTo query p.epoch = false) (sound : p.state.status ≠ .error) :
    q.state.status ≠ .error := by
  obtain ⟨own, hcauses, hsteps, -⟩ := occurs.exists_own
  obtain ⟨name, hp, hq, -⟩ := occurs.exists_find? before after
  rcases hsteps.status_eq occurs.lives hp hq (occurs.not_vacuumed hsteps after)
    (fun _ _ => occurs.isFor_eq_false hcauses unanswered) with hsame | ⟨hfailed, -⟩
  · rwa [hsame]
  · exact absurd hfailed sound

theorem countP_begun_le (occurs : h.Occurs setup) (epoch : Nat) :
    h.begun.countP (·.isFor query epoch) ≤ 1 := by
  obtain ⟨own, -, -, hbegun⟩ := occurs.exists_own
  rw [hbegun]
  refine List.countP_le_length.trans ?_
  cases own.bind Move.begun? <;> simp

theorem count_eq_zero_of_begun (occurs : h.Occurs setup) (single : h.before.cache.Single)
    (before : h.before.store.query? query = some p) (policy : p.config.fetchPolicy = .cacheFirst)
    (spares : h.before.Spares query p count) (unasked : h.act ≠ .refetch query)
    (begun : request ∈ h.begun) (isFor : request.isFor query epoch = true) : count = 0 := by
  obtain ⟨rfl, -⟩ : request.query = query ∧ request.epoch = epoch := by
    simpa [Request.isFor] using isFor
  rcases occurs.causes_of_begun begun with hsubscribes | hasks | ⟨_, answer, hanswers⟩
  · obtain ⟨q, hq, hwants⟩ := occurs.wantsFetch_of_begun begun hsubscribes
    obtain rfl := Option.some.inj (before.symm.trans hq)
    exact spares.first (by simpa [Query.wantsFetch, policy, spares.sound] using hwants)
  · rcases World.asksFor_iff.mp hasks with hrefetch | ⟨-, others, hagenda⟩
    · exact absurd hrefetch unasked
    · exact absurd (hagenda ▸ List.mem_cons_self) spares.unplanned
  · have hdirty := occurs.dirty_of_begun single begun hanswers before
    rw [spares.clean] at hdirty
    cases hdirty

theorem unplanned_after (occurs : h.Occurs setup)
    (after : h.after.store.query? query = some q) (mode : q.config.realtime ≠ .refetch)
    (unplanned : .work (.refetch query) ∉ h.before.agenda) :
    .work (.refetch query) ∉ h.after.agenda := by
  intro hmem
  rcases World.planned_or_rest occurs.act hmem with hplanned | hrest
  · have herrand := World.errand_of_mem (World.mem_errands hplanned rfl)
    obtain ⟨r, hr, hrefetch⟩ :=
      World.exists_refetching_of_errand occurs.lives_after occurs.act herrand
    obtain rfl := Option.some.inj (after.symm.trans hr)
    exact mode hrefetch
  · exact unplanned (World.mem_of_mem_rest hrest)

theorem spares_after (occurs : h.Occurs setup)
    (orderly : h.before.cache.Orderly setup.conventions)
    (before : h.before.store.query? query = some p) (after : h.after.store.query? query = some q)
    (mode : q.config.realtime ≠ .refetch) (spares : h.before.Spares query p count)
    (unasked : h.act ≠ .refetch query)
    (sound : ∀ failure, h.act ≠ .answered query p.epoch (.error failure)) :
    h.after.Spares query q (count + h.begun.countP (·.isFor query p.epoch)) := by
  have hunplanned := occurs.unplanned_after after mode spares.unplanned
  have hlife := occurs.life_eq before after
  by_cases hbegun : ∃ request ∈ h.begun, request.isFor query p.epoch = true
  · obtain ⟨request, hmem, hfor⟩ := hbegun
    obtain ⟨own, -, hsteps, -⟩ := occurs.exists_own
    have hafter := orderly.steps hsteps
    obtain ⟨name, hq⟩ := hafter.lives.query?_eq_some.mp (World.query?_cache.trans after)
    have hepoch : q.epoch = p.epoch := congrArg Life.epoch hlife
    have hbusy : q.inFlight = true :=
      hafter.single.inFlight_of_outstanding hq (outstanding_of_begun hmem) (hepoch ▸ hfor)
    obtain ⟨rfl, -⟩ : request.query = query ∧ request.epoch = p.epoch := by
      simpa [Request.isFor] using hfor
    refine ⟨occurs.not_dirty_of_begun orderly hmem after, ?_, ?_, hunplanned⟩
    · rcases (hafter.queries hq).status_of_busy hbusy with hstatus | hstatus <;> simp [hstatus]
    · intro hpending
      simp [Query.inFlight, hpending] at hbusy
  · have hnone : h.begun.countP (·.isFor query p.epoch) = 0 :=
      List.countP_eq_zero.mpr fun request hmem hfor => hbegun ⟨request, hmem, hfor⟩
    rw [hnone, Nat.add_zero]
    have hfirst : q.pending = true → count = 0 := fun hpending =>
      spares.first (occurs.pending_before before after hpending)
    cases hanswered : h.act.isAnswerTo query p.epoch with
    | true =>
      obtain ⟨answer, hanswers⟩ := Act.isAnswerTo_eq_true hanswered
      have hsettled := (occurs.settled_of_answered before hanswers).symm.trans after
      rw [spares.clean] at hsettled
      obtain rfl := Option.some.inj hsettled
      cases answer with
      | error failure => exact absurd hanswers (sound failure)
      | ok result =>
        refine ⟨rfl, fun hfailed => ?_, hfirst, hunplanned⟩
        cases hfailed
    | false =>
      have hunasked : h.asksFor query = false := by
        refine Bool.eq_false_iff.mpr fun hasks => ?_
        rcases World.asksFor_iff.mp hasks with hrefetch | ⟨-, others, hagenda⟩
        · exact unasked hrefetch
        · exact spares.unplanned (hagenda ▸ List.mem_cons_self)
      exact ⟨(occurs.dirty_eq before after hunasked hanswered).trans spares.clean,
        occurs.status_ne_error before after hanswered spares.sound, hfirst, hunplanned⟩

theorem countP_begun_of_ended (occurs : h.Occurs setup)
    (ended : ∀ r, h.after.store.query? query = some r → r.epoch ≠ epoch) :
    h.begun.countP (·.isFor query epoch) = 0 := by
  refine List.countP_eq_zero.mpr fun request hmem hfor => ?_
  obtain ⟨r, hr, hepoch⟩ := occurs.living_of_begun hmem
  simp only [Request.isFor, Bool.and_eq_true, beq_iff_eq] at hfor
  rw [hfor.1] at hr
  exact ended r hr (hepoch.trans hfor.2)

/-- What is said of a life in which there is one fetch goes on to hold. -/
theorem sparesLife_after (occurs : h.Occurs setup)
    (orderly : h.before.cache.Orderly setup.conventions)
    (past : q.epoch < h.before.store.nextEpoch) (policy : q.config.fetchPolicy = .cacheFirst)
    (mode : q.config.realtime ≠ .refetch) (spares : h.before.SparesLife query q count)
    (unasked : (∃ p, h.before.store.query? query = some p ∧ p.epoch = q.epoch) →
      h.act ≠ .refetch query)
    (sound : ∀ failure, h.act ≠ .answered query q.epoch (.error failure)) :
    h.after.SparesLife query q (count + h.begun.countP (·.isFor query q.epoch)) := by
  obtain ⟨hcount, hspares⟩ := spares
  by_cases hgoesOn : ∃ p, h.before.store.query? query = some p ∧ p.epoch = q.epoch
  · have hasked := unasked hgoesOn
    obtain ⟨p, hbefore, hepoch⟩ := hgoesOn
    obtain ⟨hlife, hspare⟩ := hspares p hbefore hepoch
    have hpolicy : p.config.fetchPolicy = .cacheFirst :=
      (congrArg (·.config.fetchPolicy) hlife).trans policy
    constructor
    · by_cases hnone : h.begun.countP (·.isFor query q.epoch) = 0
      · rwa [hnone]
      · obtain ⟨request, hmem, hfor⟩ := List.countP_pos_iff.mp (Nat.pos_of_ne_zero hnone)
        rw [occurs.count_eq_zero_of_begun orderly.single hbefore hpolicy hspare hasked hmem hfor,
          Nat.zero_add]
        exact occurs.countP_begun_le q.epoch
    · intro r hafter _
      have hrlife : r.life = q.life := (occurs.life_eq hbefore hafter).trans hlife
      have hmode : r.config.realtime ≠ .refetch := by
        rwa [show r.config = q.config from congrArg Life.config hrlife]
      rw [← hepoch] at sound ⊢
      exact ⟨hrlife, occurs.spares_after orderly hbefore hafter hmode hspare hasked sound⟩
  · have hended : ∀ r, h.after.store.query? query = some r → r.epoch ≠ q.epoch := fun r =>
      occurs.epoch_ne_of_ended past fun p hbefore hepoch => hgoesOn ⟨p, hbefore, hepoch⟩
    rw [occurs.countP_begun_of_ended hended]
    exact ⟨hcount, fun r hafter hepoch => absurd hepoch (hended r hafter)⟩

end Happening.Occurs

/-! ## Runs -/

theorem Run.begun_lt_nextEpoch (run : Run setup history w) (mem : request ∈ begunIn history) :
    request.epoch < w.store.nextEpoch := by
  induction history using List.reverseRecOn generalizing w with
  | nil => cases mem
  | append_singleton history last ih =>
    obtain ⟨hrun, hoccurs, rfl⟩ := run.concat
    rw [begunIn_concat] at mem
    rcases List.mem_append.mp mem with hearlier | hnow
    · exact Nat.lt_of_lt_of_le (ih hrun hearlier) hoccurs.nextEpoch_le
    · obtain ⟨q, hq, hepoch⟩ := hoccurs.living_of_begun hnow
      obtain ⟨name, hfind⟩ := hoccurs.lives_after.query?_eq_some.mp (World.query?_cache.trans hq)
      rw [← hepoch]
      exact hoccurs.lives_after.epoch_lt hfind

theorem Run.exists_birth_of_life (run : Run setup history w)
    (lives : w.store.query? query = some q) :
    ∃ birth ∈ history, ∃ p, birth.Births query p ∧ p.life = q.life := by
  induction history using List.reverseRecOn generalizing w q with
  | nil =>
    rw [run_nil.mp run] at lives
    cases lives
  | append_singleton history last ih =>
    obtain ⟨hrun, hoccurs, rfl⟩ := run.concat
    cases hbefore : last.before.store.query? query with
    | none => exact ⟨last, List.mem_concat_self, q, ⟨hbefore, lives⟩, rfl⟩
    | some r =>
      obtain ⟨birth, hmem, p, hbirth, hlife⟩ := ih hrun hbefore
      exact ⟨birth, List.mem_append_left _ hmem, p, hbirth,
        hlife.trans (hoccurs.life_eq hbefore lives).symm⟩

theorem Run.exists_birth_of_planned (run : Run setup history w)
    (planned : .work (.refetch query) ∈ w.agenda) :
    ∃ birth ∈ history, ∃ p, birth.Births query p ∧ p.config.realtime = .refetch := by
  induction history using List.reverseRecOn generalizing w with
  | nil =>
    rw [run_nil.mp run] at planned
    cases planned
  | append_singleton history last ih =>
    have hall := run
    obtain ⟨hrun, hoccurs, rfl⟩ := run.concat
    rcases World.planned_or_rest hoccurs.act planned with hplanned | hrest
    · have herrand := World.errand_of_mem (World.mem_errands hplanned rfl)
      obtain ⟨q, hq, hrefetch⟩ :=
        World.exists_refetching_of_errand hoccurs.lives_after hoccurs.act herrand
      obtain ⟨birth, hmem, p, hbirth, hlife⟩ := hall.exists_birth_of_life hq
      exact ⟨birth, hmem, p, hbirth, (congrArg (·.config.realtime) hlife).trans hrefetch⟩
    · obtain ⟨birth, hmem, hbirth⟩ := ih hrun (World.mem_of_mem_rest hrest)
      exact ⟨birth, List.mem_append_left _ hmem, hbirth⟩

theorem Run.countP_begunIn_birth (run : Run setup (before ++ [birth]) w)
    (births : birth.Births query q) :
    (begunIn (before ++ [birth])).countP (·.isFor query q.epoch) = 0 := by
  obtain ⟨hrun, hoccurs, -⟩ := run.concat
  obtain ⟨ref, -, -, hlater, hnone⟩ := hoccurs.of_born births.1 births.2
  rw [begunIn_concat, hnone, List.append_nil]
  refine List.countP_eq_zero.mpr fun request hmem hfor => ?_
  have hlt := hrun.begun_lt_nextEpoch hmem
  simp only [Request.isFor, Bool.and_eq_true, beq_iff_eq] at hfor
  rw [hfor.2] at hlt
  exact absurd hlater (Nat.not_le.mpr hlt)

/-- A query that has just been born is due for its first fetch at most. -/
theorem Run.sparesLife_of_births (run : Run setup (before ++ [birth]) w)
    (births : birth.Births query q) (mode : q.config.realtime ≠ .refetch)
    (distinct : ∀ h ∈ before, ∀ p, h.Births query p → p.config.realtime ≠ .refetch) :
    w.SparesLife query q 0 := by
  refine ⟨Nat.zero_le 1, fun p hp _ => ?_⟩
  have hunplanned : .work (.refetch query) ∉ w.agenda := by
    intro hplanned
    obtain ⟨other, hmem, r, hr, hrefetch⟩ := run.exists_birth_of_planned hplanned
    rcases List.mem_append.mp hmem with hearlier | hnow
    · exact distinct other hearlier r hr hrefetch
    · obtain rfl := List.mem_singleton.mp hnow
      obtain rfl := Option.some.inj (hr.2.symm.trans births.2)
      exact mode hrefetch
  obtain ⟨-, hoccurs, rfl⟩ := run.concat
  obtain rfl := Option.some.inj (births.2.symm.trans hp)
  obtain ⟨ref, rfl⟩ := hoccurs.eq_new_of_births births
  refine ⟨rfl, rfl, ?_, fun _ => rfl, hunplanned⟩
  cases hskip : ref.config.skip <;> simp [Query.new, QueryState.initial, hskip]

/-- A cache-first query that events do not fetch again is fetched at most once in its life, if
nobody asks for a fetch while it lives and none of its fetches fails. A query that events do fetch
again has had another id, as it has unless the ids of two configurations collide. -/
theorem Run.cache_first_fetched_once (run : Run setup (before ++ birth :: since) w)
    (births : birth.Births query q) (policy : q.config.fetchPolicy = .cacheFirst)
    (mode : q.config.realtime ≠ .refetch)
    (distinct : ∀ h ∈ before, ∀ p, h.Births query p → p.config.realtime ≠ .refetch)
    (unasked : ∀ h ∈ since, (∃ p, h.before.store.query? query = some p ∧ p.epoch = q.epoch) →
      h.act ≠ .refetch query)
    (sound : ∀ h ∈ since, ∀ failure, h.act ≠ .answered query q.epoch (.error failure)) :
    (begunIn (before ++ birth :: since)).countP (·.isFor query q.epoch) ≤ 1 := by
  suffices hspares : w.SparesLife query q
      ((begunIn (before ++ birth :: since)).countP (·.isFor query q.epoch)) from hspares.1
  induction since using List.reverseRecOn generalizing w with
  | nil =>
    rw [run.countP_begunIn_birth births]
    exact run.sparesLife_of_births births mode distinct
  | append_singleton since last ih =>
    rw [← List.cons_append, ← List.append_assoc] at run ⊢
    obtain ⟨hrun, hoccurs, rfl⟩ := run.concat
    have hspares := ih hrun (fun h hmem => unasked h (List.mem_append_left _ hmem))
      (fun h hmem => sound h (List.mem_append_left _ hmem))
    have hpast : q.epoch < last.before.store.nextEpoch :=
      hrun.pairwise_births.1 birth (by simp) query q births
    rw [begunIn_concat, List.countP_append]
    exact hoccurs.sparesLife_after hrun.orderly hpast policy mode hspares
      (unasked last List.mem_concat_self) (sound last List.mem_concat_self)

namespace Notes

/-- The ideas, fetched when they are wanted for the first time. -/
def keptIdeas : QueryRef where
  descriptor := ideas.descriptor
  config := { fetchPolicy := .cacheFirst }
  id := ⟨"q/a441cf7a013fe100"⟩
  id_eq := by decide +kernel

def preparing : List Act := [.materialize ideas, .goOn, .giveBack, .goOn]

def prepared : World := World.play {} {} preparing

def keeping : Happening where
  before := prepared
  act := .materialize keptIdeas
  signal := none
  after := prepared.play {} [.materialize keptIdeas]

/-- Somebody comes, is told of the first note and leaves again. Then a note is added, and two more
come, one of them when the other is told of what has become of the first note. -/
def revisiting : List Act :=
  [.goOn, .subscribe keptIdeas.id, .goOn, .giveBack, .goOn,
    .answered keptIdeas.id 2 (.ok (.list [note 1 100 "idea"], [])), .goOn, .giveBack,
    .unsubscribe keptIdeas.id ⟨1⟩ none, .emit ⟨"notes", .created, note 2 200 "idea"⟩, .goOn, .flush,
    .goOn, .subscribe keptIdeas.id, .mutated "notes" ⟨.removed, note 1 100 "idea"⟩, .goOn, .goOn,
    .subscribe keptIdeas.id, .giveBack]

theorem run_keeping : Run {} (World.played {} {} preparing ++ keeping ::
    keeping.after.played {} revisiting) (keeping.after.play {} revisiting) := by
  have hrun : Run {} (World.played {} {} preparing ++ [keeping]) keeping.after :=
    (Run.start.play preparing).act (World.act?_eq_play (by decide +kernel))
  have hrevisits := hrun.play revisiting
  rwa [List.append_assoc] at hrevisits

/-- Three have come to the ideas, and one has left; one fetch has begun. -/
theorem kept_ideas_fetched_once :
    (keeping.after.play {} revisiting).store.listeners.length = 2 ∧
      (keeping.after.play {} revisiting).store.registered = 3 ∧
      (begunIn (World.played {} {} preparing ++ keeping ::
        keeping.after.played {} revisiting)).countP (·.isFor keptIdeas.id 2) = 1 := by
  have hlives : (keeping.after.store.query? keptIdeas.id).any (fun q => q.epoch == 2 &&
      q.config.fetchPolicy == .cacheFirst && q.config.realtime != .refetch) = true := by
    decide +kernel
  obtain ⟨q, hq, hkept⟩ := (Option.any_eq_true _ _).mp hlives
  simp only [Bool.and_eq_true, beq_iff_eq, bne_iff_ne] at hkept
  obtain ⟨⟨hepoch, hpolicy⟩, hmode⟩ := hkept
  have hnew : prepared.store.query? keptIdeas.id = none := by decide +kernel
  have hunborn : (World.played {} {} preparing).all
      (fun h => (h.after.store.query? keptIdeas.id).isNone) = true := by decide +kernel
  have hmild : (keeping.after.played {} revisiting).all (fun h => match h.act with
      | .refetch _ | .answered _ _ (.error _) => false
      | _ => true) = true := by decide +kernel
  have honce := run_keeping.cache_first_fetched_once ⟨hnew, hq⟩ hpolicy hmode
    (fun h hmem p hp => by
      have hnone := List.all_eq_true.mp hunborn h hmem
      rw [hp.2] at hnone
      cases hnone)
    (fun h hmem _ hact => by
      have hquiet := List.all_eq_true.mp hmild h hmem
      rw [hact] at hquiet
      cases hquiet)
    (fun h hmem failure hact => by
      have hquiet := List.all_eq_true.mp hmild h hmem
      rw [hact] at hquiet
      cases hquiet)
  rw [hepoch] at honce
  exact ⟨by decide +kernel, by decide +kernel, Nat.le_antisymm honce (by decide +kernel)⟩

end Notes

end LiveQuery
