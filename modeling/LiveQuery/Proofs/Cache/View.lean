import LiveQuery.Proofs.Cache.Mirror
import LiveQuery.Proofs.Service.View
import Mathlib.Data.List.Infix

/-!
# Lists follow collections along runs

From the landing of a fetch on, a list shows what its filter selects from the fetched
collection as the changes of its service alter it (`Run.list_tracks_collection`). What
holds of a query while it lives one life is `Cache.During`. An answer to that life
establishes it, merging changes on the life's own service carries it on, and all other
moves leave it alone: they belong to other queries, to other services or to other lives
under the same id, or they only say where the fetches of the query stand.
-/

namespace LiveQuery

namespace Cache

variable {setup : Setup} {c c' : Cache} {move : Move} {query : QueryId} {life : Life}
variable {P P' : Query → Prop}

/-- Has a life begun, and does the query have a property while it lives it? -/
def During (c : Cache) (query : QueryId) (life : Life) (P : Query → Prop) : Prop :=
  life.epoch < c.nextEpoch ∧
    ∀ name q, c.find? name query = some q → q.life = life → P q

/-- Does a property not depend on where the fetches of a query stand? -/
structure Indifferent (P : Query → Prop) : Prop where
  begun : ∀ q, P q → P q.begun
  marked : ∀ q dirty, P q → P (Query.marked dirty q)

theorem During.of_answered {request : Request} {answer : Except Failure (QueryData × Fields)}
    (lives : c.Lives) (hstep : Step setup c (.answered request answer) c')
    (epoch : request.epoch = life.epoch)
    (holds : ∀ q : Query, q.life = life → P (Query.marked false (q.answered answer))) :
    c'.During request.query life P := by
  cases hstep with
  | @landed _ rest _ asked fits current =>
    have hmem : request ∈ c.outstanding := asked ▸ Multiset.mem_cons_self request rest
    refine ⟨epoch ▸ lives.asked_lt hmem, ?_⟩
    intro name p hp hlife
    obtain ⟨q, hq, -⟩ := current
    rcases (lives.find?_alters (lives.home hq) Service.alters_answered).mp hp with
      ⟨-, -, q', -, rfl⟩ | ⟨hne, -⟩
    · exact holds q' (Query.life_answered.symm.trans hlife)
    · exact absurd rfl hne
  | @dropped _ rest _ asked gone =>
    have hmem : request ∈ c.outstanding := asked ▸ Multiset.mem_cons_self request rest
    refine ⟨epoch ▸ lives.asked_lt hmem, ?_⟩
    intro name p hp hlife
    have hepoch : p.epoch = request.epoch := (congrArg Life.epoch hlife).trans epoch.symm
    exact absurd (lives.isCurrent hmem hp hepoch) gone

theorem During.merged {changes : List Change} (lives : c.Lives) (h : c.During query life P)
    (hstep : Step setup c (.merged life.descriptor.service changes) c')
    (holds : ∀ q q', (c.service life.descriptor.service).queries.get? query = some q →
      ((c.service life.descriptor.service).mergeAll setup.conventions
        changes).service.queries.get? query = some q' → P q → P' q') :
    c'.During query life P' := by
  have hlives := lives.step hstep
  cases hstep
  refine ⟨h.1, ?_⟩
  intro name q' hq' hlife
  have hname : life.descriptor.service = name := by
    rw [← hlives.named hq']
    exact congrArg (·.descriptor.service) hlife.symm
  subst hname
  rw [find?_set, if_pos rfl] at hq'
  have hkeeps := Service.keeps_mergeAll setup.conventions (c.service life.descriptor.service)
    changes query
  rw [hq', Option.map_some] at hkeeps
  obtain ⟨q, hq, hqlife⟩ := Option.map_eq_some_iff.mp hkeeps.symm
  exact holds q q' hq hq' (h.2 _ q hq (hqlife.trans hlife))

theorem During.quiet (lives : c.Lives) (h : c.During query life P) (indifferent : Indifferent P)
    (hstep : Step setup c move c')
    (answered : ∀ request answer, move = .answered request answer →
      ¬(request.query = query ∧ request.epoch = life.epoch))
    (merged : ∀ changes, move ≠ .merged life.descriptor.service changes) :
    c'.During query life P := by
  have hlives := lives.step hstep
  cases hstep with
  | born new =>
    refine ⟨Nat.lt_succ_of_lt h.1, ?_⟩
    intro name q hq hlife
    rcases find?_adopt.mp hq with ⟨-, -, rfl⟩ | ⟨-, hq⟩
    · have hepoch : c.nextEpoch = life.epoch := congrArg Life.epoch hlife
      exact absurd hepoch (Nat.ne_of_gt h.1)
    · exact h.2 name q hq hlife
  | begun hhome found free due =>
    refine ⟨h.1, ?_⟩
    intro name p hp hlife
    rcases (lives.find?_alters hhome Service.alters_fetching).mp hp with
      ⟨rfl, -, q, hq, rfl⟩ | ⟨-, hp⟩
    · exact indifferent.begun q (h.2 _ q hq hlife)
    · exact h.2 name p hp hlife
  | deferred hhome found follows busy =>
    refine ⟨h.1, ?_⟩
    intro name p hp hlife
    rcases (lives.find?_alters hhome Service.alters_mark).mp hp with
      ⟨rfl, -, q, hq, rfl⟩ | ⟨-, hp⟩
    · exact indifferent.marked q true (h.2 _ q hq hlife)
    · exact h.2 name p hp hlife
  | @landed request rest answer asked fits current =>
    obtain ⟨q, hq, hepoch⟩ := current
    refine ⟨h.1, ?_⟩
    intro name p hp hlife
    rcases (lives.find?_alters (lives.home hq) Service.alters_answered).mp hp with
      ⟨rfl, -, q', hq', rfl⟩ | ⟨-, hp⟩
    · obtain rfl := Option.some.inj (hq.symm.trans hq')
      have hq'life : q.life = life := Query.life_answered.symm.trans hlife
      exact absurd ⟨rfl, hepoch.symm.trans (congrArg Life.epoch hq'life)⟩
        (answered request answer rfl)
    · exact h.2 name p hp hlife
  | dropped => exact h
  | @merged service changes =>
    refine ⟨h.1, ?_⟩
    intro name q hq hlife
    have hne : name ≠ service := by
      rintro rfl
      refine merged changes ?_
      rw [← hlives.named hq]
      exact congrArg (fun l : Life => Move.merged l.descriptor.service changes) hlife
    rw [find?_set, if_neg hne] at hq
    exact h.2 name q hq hlife
  | vacuumed hhome vacuum =>
    exact ⟨h.1, fun name q hq => h.2 name q ((find?_retire lives hhome vacuum).mp hq).2⟩

theorem During.inner {moves : List Move} (lives : c.Lives) (h : c.During query life P)
    (indifferent : Indifferent P) (inner : ∀ move ∈ moves, move.IsInner)
    (hsteps : Steps setup c moves c') : c'.During query life P := by
  have hboth := hsteps.induction (P := fun c => c.Lives ∧ c.During query life P)
    (fun {c move c'} hm hc hstep => ?_) ⟨lives, h⟩
  · exact hboth.2
  · refine ⟨hc.1.step hstep, hc.2.quiet hc.1 indifferent hstep ?_ ?_⟩
    · rintro request answer rfl
      exact (inner _ hm).elim
    · rintro changes rfl
      exact (inner _ hm).elim

/-- Does every query accept what the filter of its descriptor does? -/
def Filtered (setup : Setup) (c : Cache) : Prop :=
  ∀ name query q, c.find? name query = some q →
    q.accepts = Store.filterOf setup q.descriptor q.config

theorem Filtered.step (lives : c.Lives) (h : c.Filtered setup) (hstep : Step setup c move c') :
    c'.Filtered setup := by
  intro name query p hp
  rcases hstep.born_or_life lives hp with ⟨ref, -, rfl⟩ | ⟨q, hq, hlife⟩
  · rfl
  · have haccepts : q.accepts = p.accepts := congrArg Life.accepts hlife
    have hdescriptor : q.descriptor = p.descriptor := congrArg Life.descriptor hlife
    have hconfig : q.config = p.config := congrArg Life.config hlife
    rw [← haccepts, ← hdescriptor, ← hconfig]
    exact h name query q hq

end Cache

/-! ## Runs -/

variable {setup : Setup} {history before since : List Happening} {w : World}
variable {query : QueryId} {q : Query}

theorem Run.filtered (h : Run setup history w) : w.cache.Filtered setup :=
  h.cache_induction (P := Cache.Filtered setup) (fun _ _ _ hq => by cases hq)
    fun lives hf hstep => hf.step lives hstep

/-- Does an act answer the fetch of a query in an epoch? -/
def Act.isAnswerTo (a : Act) (query : QueryId) (epoch : Nat) : Bool :=
  match a with
  | .answered x e _ => x == query && e == epoch
  | _ => false

/-- The changes of a service that are merged when something happens. -/
def Happening.changes (h : Happening) (name : String) : List Change :=
  match h.act, h.before.agenda with
  | .goOn, .work (.apply service changes) :: _ => if service = name then changes else []
  | _, _ => []

/-- The changes of a service that a history merges. -/
def changesOn (name : String) (history : List Happening) : List Change :=
  history.flatMap (·.changes name)

theorem Happening.reaching_cases (h : Happening) (name : String) :
    (h.before.reaching h.act = [] ∧ h.changes name = []) ∨
      (∃ request answer, h.before.reaching h.act = [.answered request answer] ∧
        h.act = .answered request.query request.epoch answer ∧ h.changes name = []) ∨
      ∃ service changes, h.before.reaching h.act = [.merged service changes] ∧
        h.changes name = if service = name then changes else [] := by
  unfold World.reaching Happening.changes
  cases h.act with
  | answered query epoch answer =>
    dsimp only
    cases hfind : h.before.requests.find? (·.isFor query epoch) with
    | none => exact Or.inl ⟨rfl, rfl⟩
    | some request =>
      have hfor := List.find?_some hfind
      simp only [Request.isFor, Bool.and_eq_true, beq_iff_eq] at hfor
      refine Or.inr (Or.inl ⟨request, answer, rfl, ?_, rfl⟩)
      rw [hfor.1, hfor.2]
  | goOn =>
    dsimp only
    split
    · next job rest hagenda =>
      rw [hagenda]
      cases job with
      | apply service changes => exact Or.inr (Or.inr ⟨service, changes, rfl, rfl⟩)
      | call | launch | startTimer | refetch | bind | keepBinding => exact Or.inl ⟨rfl, rfl⟩
    · next hagenda =>
      refine Or.inl ⟨rfl, ?_⟩
      split
      · next hhead => exact absurd hhead (hagenda _ _)
      · rfl
  | materialize | subscribe | unsubscribe | refetch | watch | unwatch | emit | flush | mutated
  | timedOut | tick | giveBack => exact Or.inl ⟨rfl, rfl⟩

variable {life : Life} {counted : Prop} {collection : List Json}

theorem indifferent_tracks {conv : Conventions} {changes : List Change} :
    Cache.Indifferent fun q => q.Tracks conv counted collection changes where
  begun := fun _ h => ⟨⟨⟨h.views.merges, h.views.find, h.views.fetched⟩, h.views.shown,
    h.views.distinct⟩, h.counts⟩
  marked := fun _ _ h => ⟨⟨⟨h.views.merges, h.views.find, h.views.fetched⟩, h.views.shown,
    h.views.distinct⟩, h.counts⟩

/-- What happens to a list that has landed carries its collection on. -/
theorem tracks_happening {last : Happening} {seen : List Change}
    (run : Run setup history last.before)
    (hact : last.before.act? setup last.act = some (last.after, last.signal))
    (counter : counted → setup.conventions.CountsTotal)
    (latest : last.act.isAnswerTo query life.epoch = false)
    (timely : (last.before.store.service life.descriptor.service).isTimely setup.conventions
      (last.changes life.descriptor.service) = true)
    (h : last.before.cache.During query life
      (·.Tracks setup.conventions counted collection seen)) :
    last.after.cache.During query life (·.Tracks setup.conventions counted collection
      (seen ++ last.changes life.descriptor.service)) := by
  obtain ⟨inner, hinner, hsteps⟩ := World.steps_of_act run.lives hact
  obtain ⟨mid, hreaching, hsteps⟩ := hsteps.exists_of_append
  have hlives := run.lives.steps hreaching
  refine Cache.During.inner hlives ?_ indifferent_tracks hinner hsteps
  rcases last.reaching_cases life.descriptor.service with
    ⟨hnone, hchanges⟩ | ⟨request, answer, hone, hanswered, hchanges⟩ |
      ⟨service, changes, hone, hchanges⟩
  · rw [hnone] at hreaching
    cases hreaching
    rw [hchanges, List.append_nil]
    exact h
  · rw [hone] at hreaching
    rw [hchanges, List.append_nil]
    refine h.quiet run.lives indifferent_tracks hreaching.step_of_singleton ?_ nofun
    rintro request answer hmove ⟨rfl, hepoch⟩
    cases hmove
    rw [hanswered, Act.isAnswerTo, hepoch] at latest
    simp at latest
  · rw [hone] at hreaching
    have hstep := hreaching.step_of_singleton
    by_cases hservice : service = life.descriptor.service
    · subst hservice
      rw [if_pos rfl] at hchanges
      rw [hchanges] at timely ⊢
      refine h.merged run.lives hstep ?_
      intro q q' hq hq' htracks
      obtain ⟨p, hp, htracks⟩ := Service.tracks_mergeAll
        (run.mirror life.descriptor.service) counter timely hq htracks
      obtain rfl := Option.some.inj (hq'.symm.trans hp)
      exact htracks
    · rw [hchanges, if_neg hservice, List.append_nil]
      refine h.quiet run.lives indifferent_tracks hstep nofun ?_
      intro changes hmove
      cases hmove
      exact hservice rfl

theorem tracks_landing {landing : Happening} {items : List Json} {metadata : Fields}
    (run : Run setup history landing.before)
    (hact : landing.before.act? setup landing.act = some (landing.after, landing.signal))
    (landed : landing.act = .answered query life.epoch (.ok (.list items, metadata)))
    (views : ∀ q : Query, q.life = life →
      (q.landed (.list items) metadata).Tracks setup.conventions counted collection []) :
    landing.after.cache.During query life
      (·.Tracks setup.conventions counted collection []) := by
  rw [landed] at hact
  obtain ⟨request, rfl, hepoch, hone⟩ := World.reaching_answered hact
  obtain ⟨inner, hinner, hsteps⟩ := World.steps_of_act run.lives hact
  obtain ⟨mid, hreaching, hsteps⟩ := hsteps.exists_of_append
  rw [hone] at hreaching
  have hstep := hreaching.step_of_singleton
  refine Cache.During.inner (run.lives.step hstep) ?_ indifferent_tracks hinner hsteps
  exact Cache.During.of_answered run.lives hstep hepoch fun q hlife =>
    indifferent_tracks.marked _ false (views q hlife)

/-- A list that has landed goes on showing what it selects from its collection. -/
theorem Run.during_tracks {landing : Happening} {items : List Json} {metadata : Fields}
    (run : Run setup (before ++ landing :: since) w)
    (counter : counted → setup.conventions.CountsTotal)
    (landed : landing.act = .answered query life.epoch (.ok (.list items, metadata)))
    (latest : ∀ h ∈ since, h.act.isAnswerTo query life.epoch = false)
    (timely : ∀ h ∈ since, (h.before.store.service life.descriptor.service).isTimely
      setup.conventions (h.changes life.descriptor.service) = true)
    (views : ∀ q : Query, q.life = life →
      (q.landed (.list items) metadata).Tracks setup.conventions counted collection []) :
    w.cache.During query life (·.Tracks setup.conventions counted collection
      (changesOn life.descriptor.service since)) := by
  induction since using List.reverseRecOn generalizing w with
  | nil =>
    obtain ⟨hrun, hact, rfl⟩ := run_concat.mp run
    exact tracks_landing hrun hact landed views
  | append_singleton since last ih =>
    rw [← List.cons_append, ← List.append_assoc] at run
    obtain ⟨hrun, hact, rfl⟩ := run_concat.mp run
    have hbefore := ih hrun (fun h hmem => latest h (List.mem_append_left _ hmem))
      fun h hmem => timely h (List.mem_append_left _ hmem)
    have hmem : last ∈ since ++ [last] := List.mem_append_right _ (List.mem_singleton_self _)
    have hafter := tracks_happening hrun hact counter (latest last hmem) (timely last hmem)
      hbefore
    simpa [changesOn] using hafter

/-- A list that merges events shows, up to order, what its filter selects from the
collection it was last fetched from as the changes since then leave it, whatever else
happens meanwhile, and a total that is kept is the number of its items. -/
theorem Run.list_tracks_collection {landing : Happening} {items collection : List Json}
    {metadata : Fields} (run : Run setup (before ++ landing :: since) w)
    (lives : w.store.query? query = some q) (merge : q.config.realtime = .merge)
    (find : q.descriptor.method = .find) (policy : q.config.fetchPolicy ≠ .networkOnly)
    (landed : landing.act = .answered query q.epoch (.ok (.list items, metadata)))
    (latest : ∀ h ∈ since, h.act.isAnswerTo query q.epoch = false)
    (result : items.Perm
      (collection.filter (Store.filterOf setup q.descriptor q.config)))
    (distinct : (Service.idsOf setup.conventions collection).Nodup)
    (timely : ∀ h ∈ since, (h.before.store.service q.descriptor.service).isTimely
      setup.conventions (h.changes q.descriptor.service) = true) :
    ∃ shown, q.state.data = some (.list shown) ∧
      (Service.idsOf setup.conventions shown).Nodup ∧
      shown.Perm (((changesOn q.descriptor.service since).foldl
        (Collection.follow setup.conventions) collection).filter
          (Store.filterOf setup q.descriptor q.config)) ∧
      (setup.conventions.CountsTotal →
        Fields.get? metadata "total" = some (Json.int items.length) →
        (∀ seen, seen <+: changesOn q.descriptor.service since →
          ((seen.foldl (Collection.follow setup.conventions) collection).filter
            (Store.filterOf setup q.descriptor q.config)).length < 0x8000000000000000) →
        Fields.get? q.state.metadata "total" = some (Json.int shown.length)) := by
  obtain ⟨name, hfind⟩ := run.lives.query?_eq_some.mp (Store.query?_cache.trans lives)
  have haccepts := run.filtered name query q hfind
  rw [← haccepts] at result ⊢
  have hmerges : q.merges = true := Query.merges_iff.mpr ⟨merge, fun h => policy h.1⟩
  let counted : Prop := setup.conventions.CountsTotal ∧
    Fields.get? metadata "total" = some (Json.int items.length)
  have hlanded : ∀ p : Query, p.life = q.life →
      (p.landed (.list items) metadata).Tracks setup.conventions counted collection [] := by
    intro p hlife
    have hdescriptor : p.descriptor = q.descriptor := congrArg Life.descriptor hlife
    have hconfig : p.config = q.config := congrArg Life.config hlife
    have haccepts : p.accepts = q.accepts := congrArg Life.accepts hlife
    refine ⟨⟨⟨?_, ?_, rfl⟩, ?_, distinct⟩, fun hcounted _ => hcounted.2⟩
    · show p.merges = true
      rw [Query.merges, hconfig, hdescriptor]
      exact hmerges
    · show p.descriptor.method = .find
      rw [hdescriptor, find]
    · show items.Perm (collection.filter p.accepts)
      rw [haccepts]
      exact result
  have hduring := run.during_tracks (fun h => h.1) landed latest timely hlanded
  have htracks := hduring.2 name q hfind rfl
  have hlist := ((run.mirror name).fits hfind).eq_list find htracks.views.fetched
  exact ⟨q.state.shown, hlist, htracks.views.nodup_idsOf_shown, htracks.views.shown,
    fun counter total bound => htracks.counts ⟨counter, total⟩ bound⟩

namespace Notes

def working : List Act :=
  [.goOn, .giveBack, .mutated "notes" ⟨.created, note 2 200 "idea"⟩, .goOn, .goOn, .giveBack,
    .mutated "notes" ⟨.updated, note 1 300 "todo"⟩, .goOn]

def all : List Json := [note 1 100 "idea", note 3 150 "todo"]

def worked : World := landed.play {} working

def followed : Query := (worked.store.query? ideas.id).get (by decide +kernel)

/-- The ideas are followed through both changes. -/
theorem ideas_tracked :
    ∃ since shown, worked.store.query? ideas.id = some followed ∧
      (changesOn followed.descriptor.service since).length = 2 ∧
      followed.state.data = some (.list shown) ∧
      shown.Perm (((changesOn followed.descriptor.service since).foldl
        (Collection.follow Conventions.standard) all).filter
          (Store.filterOf {} followed.descriptor followed.config)) ∧
      Fields.get? followed.state.metadata "total" = some (Json.int shown.length) := by
  obtain ⟨history, hrun⟩ := run_handed
  have hsome : (handed.act? {} firstAnswer).isSome = true := by decide +kernel
  obtain ⟨signal, hact⟩ := World.act?_eq_some_play hsome
  have hworked : Run {} (history ++ ⟨handed, firstAnswer, signal, landed⟩ ::
      landed.played {} working) worked := by
    have hplay := (hrun.act hact).play working
    rwa [List.append_assoc] at hplay
  have hlives : worked.store.query? ideas.id = some followed := (Option.some_get _).symm
  have hepoch : followed.epoch = 1 := by decide +kernel
  have hresult : [note 1 100 "idea"].Perm
      (all.filter (Store.filterOf {} followed.descriptor followed.config)) := by
    rw [all, List.filter_cons_of_pos (by decide +kernel),
      List.filter_cons_of_neg (by decide +kernel), List.filter_nil]
  have hdistinct : (Service.idsOf Conventions.standard all).Nodup := by decide +kernel
  obtain ⟨shown, hdata, -, hshown, htotal⟩ := Run.list_tracks_collection hworked hlives
    (by decide +kernel) (by decide +kernel) (by decide +kernel)
    (by rw [hepoch]; rfl) (by decide +kernel) hresult hdistinct (by decide +kernel)
  refine ⟨_, shown, hlives, ?_, hdata, hshown, htotal ⟨fun _ => rfl, fun _ => rfl⟩ rfl ?_⟩
  · decide +kernel
  · intro seen hseen
    have hall : ∀ seen ∈ (changesOn followed.descriptor.service
        (landed.played {} working)).inits, ((seen.foldl (Collection.follow Conventions.standard)
          all).filter (Store.filterOf {} followed.descriptor followed.config)).length <
        0x8000000000000000 := by decide +kernel
    exact hall seen ((List.mem_inits _ _).mpr hseen)

end Notes

end LiveQuery
