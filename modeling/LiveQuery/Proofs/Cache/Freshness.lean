import LiveQuery.Proofs.Cache.Refetches
import LiveQuery.Proofs.Store.Transitions

/-!
# Queries that are fetched again end fresh

When something on its service changes, a query in refetch mode that somebody listens to is owed a
fetch. The wish waits on the agenda, then the fetch begins, or the query is dirty until the fetch
that is under way has been answered, and then it begins. Whatever else happens meanwhile, one of
these three is the case (`Run.begun_or_owed`), so once nothing is left to do the last fetch of the
query has begun after the change, and what the query shows is the answer to it
(`Run.refetching_ends_fresh`).
-/

namespace LiveQuery

/-- Is a change of a service admitted when something happens? -/
def Happening.Applies (setup : Setup) (h : Happening) (service : String) : Prop :=
  0 < ((h.before.store.service service).mergeAll setup.conventions (h.changes service)).admitted

instance (setup : Setup) (h : Happening) (service : String) :
    Decidable (h.Applies setup service) := inferInstanceAs (Decidable (_ < _))

/-- Is a fetch of a query still to begin, because it was asked for? -/
def World.Owes (w : World) (query : QueryId) : Prop :=
  .work (.refetch query) ∈ w.agenda ∨ ∃ q, w.store.query? query = some q ∧ q.dirty = true

/-- Is a fetch of a query in an epoch, begun in `start`, the last one that begins in a history?
`later` is what happens after it has begun. -/
structure LatestFetch (history : List Happening) (query : QueryId) (epoch : Nat)
    (start : Happening) (later : List Happening) : Prop where
  split : ∃ earlier, history = earlier ++ start :: later
  begins : ∃ request ∈ start.begun, request.isFor query epoch = true
  /-- It is then the only one under way. -/
  alone : start.after.outstanding.countP (·.isFor query epoch) = 1
  latest : ∀ h ∈ later, ∀ request ∈ h.begun, request.query ≠ query

variable {setup : Setup} {history before since later : List Happening} {w : World}
variable {h last start event : Happening} {query : QueryId} {epoch : Nat} {p q : Query}

theorem Query.state_answered (p q : Query) (answer : Except Failure (QueryData × Fields)) :
    (p.answered answer).state = (q.answered answer).state := by
  cases answer <;> rfl

theorem Service.mem_refetching {s : Service} {x : QueryId} :
    x ∈ s.refetching ↔ ∃ q, s.queries.get? x = some q ∧ q.config.realtime = .refetch := by
  simp [refetching, Table.mem_entries]

/-! ## What happens while somebody listens -/

namespace Happening.Occurs

theorem isFor_of_begun {request : Request} (occurs : h.Occurs setup) (begun : request ∈ h.begun)
    (is : request.query = query) (after : h.after.store.query? query = some q) :
    request.isFor query q.epoch = true := by
  subst is
  obtain ⟨r, hr, hepoch⟩ := occurs.living_of_begun begun
  obtain rfl := Option.some.inj (hr.symm.trans after)
  simp [Request.isFor, hepoch]

theorem state_eq (occurs : h.Occurs setup) (before : h.before.store.query? query = some p)
    (after : h.after.store.query? query = some q) (still : p.merges = false)
    (unbegun : ∀ request ∈ h.begun, request.query ≠ query)
    (unanswered : h.act.isAnswerTo query p.epoch = false) : q.state = p.state := by
  obtain ⟨own, hcauses, hsteps, hbegun⟩ := occurs.exists_own
  obtain ⟨name, hp, hq, -⟩ := occurs.exists_find? before after
  have hkept := hsteps.related (R := fun p q => p.merges = false → q.merges = false ∧
    q.state = p.state) (fun _ hnot => ⟨hnot, rfl⟩)
    (fun hpq hqr hnot => ⟨(hqr (hpq hnot).1).1, (hqr (hpq hnot).1).2.trans (hpq hnot).2⟩) ?_
    occurs.lives (occurs.not_vacuumed hsteps after) hp hq rfl
  · exact (hkept still).2
  · intro move p r hmem halters hepoch hnot
    cases halters with
    | unaltered | deferred => exact ⟨hnot, rfl⟩
    | merged _ hstill =>
      rw [hstill hnot]
      exact ⟨hnot, rfl⟩
    | @begun request hasked =>
      rcases List.mem_append.mp hmem with hmem | hmem
      · exact absurd trivial (occurs.not_isInner_of_mem_reaching hmem)
      · rw [Option.mem_toList.mp hmem] at hbegun
        exact absurd hasked (unbegun request (hbegun ▸ List.mem_singleton_self _))
    | answered hfor =>
      rw [hepoch, occurs.isFor_eq_false hcauses unanswered hmem] at hfor
      cases hfor

theorem owes_of_applies (occurs : h.Occurs setup)
    (lives : h.before.store.query? query = some p) (refetches : p.config.realtime = .refetch)
    (listened : h.before.store.hasListener query = true)
    (applies : h.Applies setup p.descriptor.service) : h.after.Owes query := by
  obtain ⟨name, hp⟩ := occurs.lives.query?_eq_some.mp (World.query?_cache.trans lives)
  obtain rfl : p.descriptor.service = name := occurs.lives.named hp
  have hkeeps := Service.keeps_mergeAll setup.conventions
    (h.before.store.service p.descriptor.service) (h.changes p.descriptor.service) query
  rw [show (h.before.store.service p.descriptor.service).queries.get? query = some p from hp,
    Option.map_some] at hkeeps
  obtain ⟨q, hq, hlife⟩ := Option.map_eq_some_iff.mp hkeeps
  have hagain := Service.mem_refetching.mpr
    ⟨q, hq, (congrArg (·.config.realtime) hlife).trans refetches⟩
  unfold Applies at applies
  unfold changes at applies hagain
  split at applies
  · next service changes rest hact hagenda =>
    simp only [hact, hagenda] at hagain
    split at applies
    · next hservice =>
      subst hservice
      rw [if_pos rfl] at hagain
      obtain ⟨-, -, outside, -, hafter⟩ := World.transition_of_act occurs.act
      rw [hact, World.transition, hagenda] at hafter
      refine Or.inl (hafter ▸ List.mem_append_left _ (List.mem_append_right _ ?_))
      exact List.mem_map_of_mem (Store.refetch_mem_apply applies hagain listened)
    · exact absurd applies (Nat.lt_irrefl 0)
  · exact absurd applies (Nat.lt_irrefl 0)

/-- A fetch that is owed begins, or goes on being owed. -/
theorem owes_or_begun (occurs : h.Occurs setup)
    (orderly : h.before.cache.Orderly setup.conventions)
    (before : h.before.store.query? query = some p) (follows : p.config.skip = false)
    (after : h.after.store.query? query = some q)
    (listened : h.before.store.hasListener query = true) (owes : h.before.Owes query) :
    h.after.Owes query ∨ ∃ request ∈ h.begun, request.isFor query p.epoch = true := by
  have hisFor (service : String) : (p.request query service).isFor query p.epoch = true := by
    simp [Query.request, Request.isFor]
  cases hasks : h.asksFor query with
  | true =>
    cases hbusy : p.inFlight with
    | false =>
      obtain ⟨service, hlaunched⟩ := Store.launched_refetch_of_free before follows hbusy
      refine Or.inr ⟨p.request query service, ?_, hisFor service⟩
      rw [(occurs.of_asksFor hasks).2, hlaunched]
      exact List.mem_singleton_self _
    | true =>
      exact Or.inl (Or.inr ⟨q, after, occurs.dirty_of_asksFor hasks before follows hbusy after⟩)
  | false =>
    rcases owes with hwaits | ⟨p', hp', hdirty⟩
    · rcases World.mem_rest occurs.act hwaits with hrest | ⟨hact, rest, hagenda⟩
      · obtain ⟨-, -, outside, -, hafter⟩ := World.transition_of_act occurs.act
        exact Or.inl (Or.inl (hafter ▸ List.mem_append_right _ hrest))
      · rw [asksFor, World.asksFor_iff.mpr (Or.inr ⟨hact, rest, hagenda⟩)] at hasks
        cases hasks
    · obtain rfl := Option.some.inj (hp'.symm.trans before)
      cases hanswers : h.act.isAnswerTo query p'.epoch with
      | true =>
        obtain ⟨answer, hact⟩ := Act.isAnswerTo_eq_true hanswers
        obtain ⟨-, ⟨service, hbegun⟩, -⟩ := occurs.of_answered orderly.single before hact
        rw [hdirty, listened] at hbegun
        exact Or.inr ⟨_, hbegun ▸ List.mem_singleton_self _, hisFor service⟩
      | false =>
        exact Or.inl (Or.inr ⟨q, after,
          (occurs.dirty_eq before after hasks hanswers).trans hdirty⟩)

end Happening.Occurs

/-! ## Runs -/

theorem LatestFetch.of_begun {request : Request} (occurs : last.Occurs setup)
    (single : last.after.cache.Single) (begun : request ∈ last.begun)
    (isFor : request.isFor query epoch = true) :
    LatestFetch (history ++ [last]) query epoch last [] := by
  refine ⟨⟨history, rfl⟩, ⟨request, begun, isFor⟩, ?_, List.forall_mem_nil _⟩
  obtain ⟨q, hq, hepoch⟩ := occurs.living_of_begun begun
  obtain ⟨name, hfind⟩ := occurs.lives_after.query?_eq_some.mp (World.query?_cache.trans hq)
  obtain ⟨rfl, rfl⟩ : request.query = query ∧ request.epoch = epoch := by
    simpa [Request.isFor] using isFor
  have hbusy := single.inFlight_of_outstanding hfind
    (Happening.Occurs.outstanding_of_begun begun) (hepoch ▸ isFor)
  have hcount := single _ _ _ hfind
  rw [if_pos hbusy, hepoch] at hcount
  simpa [Cache.flights, World.cache, Store.cache] using hcount

theorem LatestFetch.extend (h : LatestFetch history query epoch start later)
    (unbegun : ∀ request ∈ last.begun, request.query ≠ query) :
    LatestFetch (history ++ [last]) query epoch start (later ++ [last]) := by
  obtain ⟨earlier, rfl⟩ := h.split
  refine ⟨⟨earlier, by simp⟩, h.begins, h.alone, ?_⟩
  rw [List.forall_mem_append]
  exact ⟨h.latest, List.forall_mem_singleton.mpr unbegun⟩

/-- From an admitted change on a query lives on while somebody listens, and it has been
fetched since, or a fetch is owed. -/
theorem Run.begun_or_owed (run : Run setup (before ++ event :: since) w)
    (lives : event.before.store.query? query = some p) (refetches : p.config.realtime = .refetch)
    (follows : p.config.skip = false) (applies : event.Applies setup p.descriptor.service)
    (listened : ∀ h ∈ event :: since, h.before.store.hasListener query = true)
    (listens : w.store.hasListener query = true) :
    (∃ q, w.store.query? query = some q ∧ q.life = p.life) ∧
      (∀ h ∈ since, ∃ q, h.before.store.query? query = some q) ∧
      (w.Owes query ∨ ∃ start later, LatestFetch since query p.epoch start later) := by
  induction since using List.reverseRecOn generalizing w with
  | nil =>
    obtain ⟨-, hoccurs, rfl⟩ := run.concat
    exact ⟨hoccurs.lives_on lives listens, List.forall_mem_nil _,
      Or.inl (hoccurs.owes_of_applies lives refetches (listened event List.mem_cons_self) applies)⟩
  | append_singleton since last ih =>
    rw [← List.cons_append, ← List.append_assoc] at run
    have hsingle := run.single
    obtain ⟨hrun, hoccurs, rfl⟩ := run.concat
    have hlistened := listened last (List.mem_cons_of_mem _ List.mem_concat_self)
    obtain ⟨⟨r, hr, hlife⟩, hliving, hprogress⟩ := ih hrun (fun h hmem => listened h (by
      rcases List.mem_cons.mp hmem with rfl | hmem
      · exact List.mem_cons_self
      · exact List.mem_cons_of_mem _ (List.mem_append_left _ hmem))) hlistened
    obtain ⟨q, hq, hlives⟩ := hoccurs.lives_on hr listens
    have hepoch : r.epoch = p.epoch := congrArg Life.epoch hlife
    have hconfig : r.config = p.config := congrArg Life.config hlife
    refine ⟨⟨q, hq, hlives.trans hlife⟩, ?_, ?_⟩
    · rw [List.forall_mem_append]
      exact ⟨hliving, List.forall_mem_singleton.mpr ⟨r, hr⟩⟩
    · by_cases hstart : ∃ request ∈ last.begun, request.isFor query p.epoch = true
      · obtain ⟨request, hbegun, hfor⟩ := hstart
        exact Or.inr ⟨last, [], .of_begun hoccurs hsingle hbegun hfor⟩
      · rcases hprogress with howes | ⟨start, later, hlatest⟩
        · refine Or.inl ((hoccurs.owes_or_begun hrun.orderly hr (hconfig ▸ follows) hq hlistened
            howes).resolve_right ?_)
          rwa [hepoch]
        · refine Or.inr ⟨start, later ++ [last], hlatest.extend fun request hbegun his => ?_⟩
          have hfor := hoccurs.isFor_of_begun hbegun his hq
          rw [show q.epoch = p.epoch from congrArg Life.epoch (hlives.trans hlife)] at hfor
          exact hstart ⟨request, hbegun, hfor⟩

/-- The last fetch of a query that does not merge events is under way, or has been answered and
the query shows the answer. -/
theorem Run.outstanding_or_shown (run : Run setup (before ++ start :: later) w)
    (begins : ∃ request ∈ start.begun, request.isFor query epoch = true)
    (latest : ∀ h ∈ later, ∀ request ∈ h.begun, request.query ≠ query)
    (living : ∀ h ∈ later, ∃ p, h.before.store.query? query = some p)
    (lives : w.store.query? query = some q) (is : q.epoch = epoch) (still : q.merges = false) :
    (∃ request ∈ w.outstanding, request.isFor query epoch = true) ∨
      ∃ landing ∈ later, ∃ answer, landing.act = .answered query epoch answer ∧
        q.state = (q.answered answer).state := by
  induction later using List.reverseRecOn generalizing w q with
  | nil =>
    obtain ⟨-, -, rfl⟩ := run.concat
    obtain ⟨request, hbegun, hfor⟩ := begins
    exact Or.inl ⟨request, Happening.Occurs.outstanding_of_begun hbegun, hfor⟩
  | append_singleton later last ih =>
    rw [← List.cons_append, ← List.append_assoc] at run
    have hlast : last ∈ later ++ [last] := List.mem_concat_self
    obtain ⟨hrun, hoccurs, rfl⟩ := run.concat
    obtain ⟨r, hr⟩ := living last hlast
    have hlife := hoccurs.life_eq hr lives
    have hepoch : r.epoch = epoch := (congrArg Life.epoch hlife).symm.trans is
    subst hepoch
    have hstill : r.merges = false := by
      have hconfig : q.config = r.config := congrArg Life.config hlife
      have hdescriptor : q.descriptor = r.descriptor := congrArg Life.descriptor hlife
      rwa [Query.merges, hconfig, hdescriptor] at still
    cases hanswers : last.act.isAnswerTo query r.epoch with
    | true =>
      obtain ⟨answer, hact⟩ := Act.isAnswerTo_eq_true hanswers
      refine Or.inr ⟨last, hlast, answer, hact, ?_⟩
      obtain ⟨-, ⟨service, hbegun⟩, -⟩ := hoccurs.of_answered hrun.single hr hact
      have hsettled := (hoccurs.settled_of_answered hr hact).symm.trans lives
      cases hagain : r.dirty && last.before.store.hasListener query with
      | true =>
        rw [hagain, if_pos rfl] at hbegun
        exact absurd rfl (latest last hlast _ (hbegun ▸ List.mem_singleton_self _))
      | false =>
        rw [hagain] at hsettled
        obtain rfl := Option.some.inj hsettled
        exact Query.state_answered _ _ answer
    | false =>
      rcases ih hrun (fun h hmem => latest h (List.mem_append_left _ hmem))
        (fun h hmem => living h (List.mem_append_left _ hmem)) hr rfl hstill with
        ⟨request, hasked, hfor⟩ | ⟨landing, hmem, answer, hact, hstate⟩
      · have hcount := hoccurs.flights query r.epoch
        rw [hanswers] at hcount
        have hbefore : 0 < last.before.cache.flights query r.epoch :=
          Multiset.countP_pos.mpr ⟨request, hasked, hfor⟩
        have hafter : 0 < last.after.cache.flights query r.epoch := by
          simp only [Bool.false_eq_true, if_false] at hcount
          omega
        exact Or.inl (Multiset.countP_pos.mp hafter)
      · refine Or.inr ⟨landing, List.mem_append_left _ hmem, answer, hact, ?_⟩
        rw [hoccurs.state_eq hr lives hstill (latest last hlast) hanswers, hstate]
        exact Query.state_answered _ _ answer

/-- Once nothing is left to do for it, a query that is fetched again whenever something changes
shows the answer to a fetch that has begun after the change, if somebody has listened since; no
other fetch of it has begun later, and none was under way beside it. -/
theorem Run.refetching_ends_fresh (run : Run setup (before ++ event :: since) w)
    (lives : event.before.store.query? query = some p) (refetches : p.config.realtime = .refetch)
    (follows : p.config.skip = false) (applies : event.Applies setup p.descriptor.service)
    (listened : ∀ h ∈ event :: since, h.before.store.hasListener query = true)
    (listens : w.store.hasListener query = true) (rests : w.agenda = [])
    (done : ∀ request ∈ w.requests, request.isFor query p.epoch = false) :
    ∃ q start later, w.store.query? query = some q ∧ q.epoch = p.epoch ∧
      LatestFetch since query p.epoch start later ∧
      ∃ landing ∈ later, ∃ answer, landing.act = .answered query p.epoch answer ∧
        q.state = (q.answered answer).state := by
  obtain ⟨⟨q, hq, hlife⟩, hliving, hprogress⟩ :=
    run.begun_or_owed lives refetches follows applies listened listens
  have hepoch : q.epoch = p.epoch := congrArg Life.epoch hlife
  have hconfig : q.config = p.config := congrArg Life.config hlife
  have hnone : ∀ request ∈ w.outstanding, ¬request.isFor query p.epoch = true := by
    intro request hmem
    rw [World.outstanding, rests] at hmem
    rw [done request hmem]
    exact Bool.false_ne_true
  rcases hprogress with howes | ⟨start, later, hlatest⟩
  · rcases howes with hwaits | ⟨q', hq', hdirty⟩
    · rw [rests] at hwaits
      cases hwaits
    · have horderly := run.orderly
      obtain ⟨name, hfind⟩ := horderly.lives.query?_eq_some.mp (World.query?_cache.trans hq')
      obtain rfl := Option.some.inj (hq.symm.trans hq')
      obtain ⟨request, hmem, hfor⟩ := horderly.exists_outstanding_of_dirty hfind hdirty
      exact absurd (hepoch ▸ hfor) (hnone request hmem)
  · obtain ⟨earlier, rfl⟩ := hlatest.split
    rw [← List.cons_append, ← List.append_assoc] at run
    have hstill : q.merges = false := by simp [Query.merges, hconfig, refetches]
    have hshown := run.outstanding_or_shown hlatest.begins hlatest.latest
      (fun h hmem => hliving h (List.mem_append_right _ (List.mem_cons_of_mem _ hmem)))
      hq hepoch hstill
    refine ⟨q, start, later, hq, hepoch, hlatest, hshown.resolve_left ?_⟩
    rintro ⟨request, hmem, hfor⟩
    exact hnone request hmem hfor

namespace Notes

def freshIdeas : QueryRef where
  descriptor := ideas.descriptor
  config := { realtime := .refetch }
  id := ⟨"q/a47be6d9932d6dcf"⟩
  id_eq := by decide +kernel

def adding : List Act :=
  [.materialize freshIdeas, .goOn, .giveBack, .goOn, .subscribe freshIdeas.id, .goOn, .giveBack,
    .goOn, .answered freshIdeas.id 1 (.ok (.list [note 1 100 "idea"], [])), .goOn, .giveBack,
    .mutated "notes" ⟨.created, note 2 200 "idea"⟩]

def added : World := World.play {} {} adding

def addition : Happening where
  before := added
  act := .goOn
  signal := none
  after := added.play {} [.goOn]

def refreshing : List Act :=
  [.goOn, .goOn, .giveBack, .goOn,
    .answered freshIdeas.id 1 (.ok (.list [note 1 100 "idea", note 2 200 "idea"], [])), .goOn,
    .giveBack]

def refreshed : World := addition.after.play {} refreshing

/-- The ideas as they stand when one is added. -/
def outdated : Query := (added.store.query? freshIdeas.id).get (by decide +kernel)

/-- In the end both ideas are shown, by the answer to the last fetch. -/
theorem ideas_end_fresh :
    ∃ before since q start later,
      Run {} (before ++ addition :: since) refreshed ∧
      refreshed.store.query? freshIdeas.id = some q ∧ q.state.items.length = 2 ∧
      LatestFetch since freshIdeas.id outdated.epoch start later ∧
      ∃ landing ∈ later, ∃ answer, landing.act = .answered freshIdeas.id outdated.epoch answer ∧
        q.state = (q.answered answer).state := by
  have hact : added.act? {} .goOn = some (addition.after, none) := by
    obtain ⟨signal, hact⟩ := World.act?_eq_some_play
      (show (added.act? {} .goOn).isSome = true by decide +kernel)
    have hsignal : ((added.act? {} .goOn).bind Prod.snd).isNone = true := by decide +kernel
    rw [hact] at hsignal ⊢
    rw [show signal = none from Option.isNone_iff_eq_none.mp hsignal]
    rfl
  have hrun : Run {} (World.played {} {} adding ++ addition ::
      addition.after.played {} refreshing) refreshed := by
    have hplay := ((Run.start.play adding).act hact).play refreshing
    rwa [List.append_assoc] at hplay
  have hlives : added.store.query? freshIdeas.id = some outdated := (Option.some_get _).symm
  have hlistened : (addition :: addition.after.played {} refreshing).all
      (·.before.store.hasListener freshIdeas.id) = true := by decide +kernel
  have hdone : refreshed.requests.all (!·.isFor freshIdeas.id outdated.epoch) = true := by
    decide +kernel
  obtain ⟨q, start, later, hq, -, hlatest, hlanding⟩ := Run.refetching_ends_fresh hrun hlives
    (by decide +kernel) (by decide +kernel) (by decide +kernel)
    (List.all_eq_true.mp hlistened) (by decide +kernel)
    (List.isEmpty_iff.mp (by decide +kernel))
    (fun request hmem => by simpa using List.all_eq_true.mp hdone request hmem)
  have hitems : ((refreshed.store.query? freshIdeas.id).map (·.state.items.length)) = some 2 := by
    decide +kernel
  rw [hq, Option.map_some] at hitems
  exact ⟨_, _, q, start, later, hrun, hq, Option.some.inj hitems, hlatest, hlanding⟩

end Notes

end LiveQuery
