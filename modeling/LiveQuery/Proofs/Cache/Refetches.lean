import LiveQuery.Proofs.Cache.Lifecycle

/-!
# Fetches that are asked for

Where a fetch is asked for, it begins at once, unless one is under way; then the query is
marked, and the answer to the fetch under way begins exactly one more, however often it was
asked for, if anybody still listens (`Run.refetches_kept`). Every answer takes the mark away.

What the mark says of the past is `Run.exists_flight`: the fetch under way has begun at some
point of the history, and the query is dirty exactly if a fetch was asked for since.
-/

namespace LiveQuery

/-! ## What makes a query dirty -/

namespace Cache

variable {setup : Setup} {c c' : Cache} {move : Move} {moves : List Move}
variable {name : String} {x : QueryId} {p q : Query}

theorem Step.not_dirty_of_begun {request : Request} (orderly : c.Orderly setup.conventions)
    (h : Step setup c (.begun request) c') (hp : c'.find? name request.query = some p) :
    p.dirty = false := by
  cases h with
  | @begun query home q hhome found free due =>
    rcases (orderly.lives.find?_alters hhome Service.alters_fetching).mp hp with
      ⟨-, -, q', hq, rfl⟩ | ⟨hne, -⟩
    · obtain rfl := Option.some.inj (found.symm.trans hq)
      cases hdirty : q.dirty with
      | false => exact hdirty
      | true =>
        rw [(orderly.queries hq).busy hdirty] at free
        cases free
    · exact absurd rfl hne

theorem Steps.dirty_eq (lives : c.Lives) (h : Steps setup c moves c')
    (hq : c.find? name x = some q) (hp : c'.find? name x = some p)
    (stays : .vacuumed x ∉ moves) (undeferred : .deferred x ∉ moves)
    (unanswered : ∀ request answer, .answered request answer ∈ moves →
      request.isFor x q.epoch = false) : p.dirty = q.dirty := by
  refine h.related (R := fun q p => p.dirty = q.dirty) (fun _ => rfl)
    (fun hpq hqr => hqr.trans hpq) ?_ lives stays hq hp rfl
  intro move p r hmem halters hepoch
  cases halters with
  | unaltered | begun => rfl
  | deferred => exact absurd hmem undeferred
  | answered isFor =>
    rw [hepoch, unanswered _ _ hmem] at isFor
    cases isFor
  | merged standing => exact congrArg (·.2.2.2.2) standing

end Cache

/-! ## Runs -/

variable {setup : Setup} {history : List Happening} {w : World} {h last : Happening}
variable {query : QueryId} {epoch : Nat} {p q : Query} {request : Request}

/-- Is a fetch of a query asked for when something happens? -/
def Happening.asksFor (h : Happening) (query : QueryId) : Bool := h.before.asksFor h.act query

/-- Is a fetch of a query in an epoch under way at the end of a history? It has begun in
`start`, and `since` is what has happened since. -/
structure Flight (history : List Happening) (query : QueryId) (epoch : Nat)
    (start : Happening) (since : List Happening) : Prop where
  split : ∃ before, history = before ++ start :: since
  begins : ∃ request ∈ start.begun, request.isFor query epoch = true
  unanswered : ∀ h ∈ since, h.act.isAnswerTo query epoch = false
  /-- No other fetch has begun since. -/
  latest : ∀ h ∈ since, ∀ request ∈ h.begun, request.isFor query epoch = false

theorem Flight.of_begun (begun : request ∈ last.begun)
    (isFor : request.isFor query epoch = true) :
    Flight (history ++ [last]) query epoch last [] :=
  ⟨⟨history, rfl⟩, ⟨request, begun, isFor⟩, List.forall_mem_nil _, List.forall_mem_nil _⟩

theorem Flight.extend {start : Happening} {since : List Happening}
    (h : Flight history query epoch start since)
    (unanswered : last.act.isAnswerTo query epoch = false)
    (unbegun : ∀ request ∈ last.begun, request.isFor query epoch = false) :
    Flight (history ++ [last]) query epoch start (since ++ [last]) := by
  obtain ⟨before, rfl⟩ := h.split
  refine ⟨⟨before, by simp⟩, h.begins, ?_, ?_⟩
  · rw [List.forall_mem_append]
    exact ⟨h.unanswered, List.forall_mem_singleton.mpr unanswered⟩
  · rw [List.forall_mem_append]
    exact ⟨h.latest, List.forall_mem_singleton.mpr unbegun⟩

namespace Happening.Occurs

theorem not_dirty_of_begun (occurs : h.Occurs setup)
    (orderly : h.before.cache.Orderly setup.conventions) (begun : request ∈ h.begun)
    (after : h.after.store.query? request.query = some p) : p.dirty = false := by
  obtain ⟨mid, hreaching, hstep⟩ := occurs.exists_step_of_begun begun
  obtain ⟨name, hp⟩ := occurs.lives_after.query?_eq_some.mp (World.query?_cache.trans after)
  exact hstep.not_dirty_of_begun (orderly.steps hreaching) hp

theorem dirty_eq (occurs : h.Occurs setup) (before : h.before.store.query? query = some q)
    (after : h.after.store.query? query = some p) (unasked : h.asksFor query = false)
    (unanswered : h.act.isAnswerTo query q.epoch = false) : p.dirty = q.dirty := by
  obtain ⟨own, hcauses, hsteps, -⟩ := occurs.exists_own
  obtain ⟨name, hq, hp, -⟩ := occurs.exists_find? before after
  refine hsteps.dirty_eq occurs.lives hq hp (occurs.not_vacuumed hsteps after) ?_ ?_
  · intro hmem
    rcases List.mem_append.mp hmem with hmem | hmem
    · exact occurs.not_isInner_of_mem_reaching hmem trivial
    · have hasks : h.asksFor query = true := hcauses _ (Option.mem_toList.mp hmem)
      rw [unasked] at hasks
      cases hasks
  · intro request answer hmem
    exact occurs.isFor_eq_false hcauses unanswered hmem

end Happening.Occurs

theorem Happening.begun_eq {next : Store × List Work}
    (agenda : h.after.agenda = next.2.map .work ++ h.before.rest h.act) :
    h.begun = next.2.filterMap Work.launched? := by
  rw [begun, planned_eq agenda, List.filterMap_map]
  rfl

theorem World.asksFor_iff {a : Act} :
    w.asksFor a query = true ↔
      a = .refetch query ∨ a = .goOn ∧ ∃ rest, w.agenda = .work (.refetch query) :: rest := by
  unfold asksFor
  constructor
  · intro h
    split at h
    · exact Or.inl (congrArg Act.refetch (beq_iff_eq.mp h))
    · next x rest hagenda =>
      obtain rfl := beq_iff_eq.mp h
      exact Or.inr ⟨rfl, rest, hagenda⟩
    · cases h
  · rintro (rfl | ⟨rfl, rest, hagenda⟩)
    · exact beq_self_eq_true query
    · rw [hagenda]
      exact beq_self_eq_true query

theorem Happening.Occurs.of_asksFor (occurs : h.Occurs setup) (asks : h.asksFor query = true) :
    h.after.store = (h.before.store.refetch query).1 ∧
      h.begun = (h.before.store.refetch query).2.filterMap Work.launched? := by
  obtain ⟨w, a, signal, w'⟩ := h
  have hact : w.act? setup a = some (w', signal) := occurs.act
  rcases World.asksFor_iff.mp asks with hrefetch | ⟨hgoOn, rest, hagenda⟩
  · obtain rfl : a = .refetch query := hrefetch
    obtain ⟨-, hact⟩ := Option.ite_none_right_eq_some.mp hact
    cases hact
    exact ⟨rfl, Happening.begun_eq rfl⟩
  · obtain rfl : a = .goOn := hgoOn
    have hagenda : w.agenda = .work (.refetch query) :: rest := hagenda
    simp only [World.act?, hagenda] at hact
    cases hact
    refine ⟨rfl, Happening.begun_eq ?_⟩
    show _ = _ ++ w.agenda.tail
    rw [hagenda]
    rfl

namespace Happening.Occurs

theorem inFlight_before (occurs : h.Occurs setup) (before : h.before.cache.Single)
    (after : h.after.cache.Single) (lives : h.after.store.query? query = some q)
    (busy : q.inFlight = true)
    (unbegun : ∀ request ∈ h.begun, request.isFor query q.epoch = false) :
    ∃ p, h.before.store.query? query = some p ∧ p.epoch = q.epoch ∧ p.inFlight = true ∧
      h.act.isAnswerTo query q.epoch = false := by
  obtain ⟨name, hq⟩ := occurs.lives_after.query?_eq_some.mp (World.query?_cache.trans lives)
  have hcount := occurs.flights query q.epoch
  have hone : h.after.cache.flights query q.epoch = 1 := by rw [after _ _ _ hq, if_pos busy]
  have hnone : h.begun.countP (·.isFor query q.epoch) = 0 := by
    refine List.countP_eq_zero.mpr fun request hmem hfor => ?_
    rw [unbegun request hmem] at hfor
    cases hfor
  rw [hone, hnone, Nat.zero_add] at hcount
  have hpos : 0 < h.before.cache.flights query q.epoch := by omega
  obtain ⟨request, hasked, hfor⟩ := Multiset.countP_pos.mp hpos
  simp only [Request.isFor, Bool.and_eq_true, beq_iff_eq] at hfor
  have hlt := occurs.lives.asked_lt hasked
  cases hp : h.before.store.query? query with
  | none =>
    obtain ⟨ref, -, -, hlater, -⟩ := occurs.of_born hp lives
    rw [hfor.2] at hlt
    exact absurd hlater (Nat.not_le.mpr hlt)
  | some p =>
    obtain ⟨name, hfind, -, hlife⟩ := occurs.exists_find? hp lives
    have hepoch : q.epoch = p.epoch := congrArg Life.epoch hlife
    have hbefore := before _ _ _ hfind
    rw [← hepoch] at hbefore
    refine ⟨p, rfl, hepoch.symm, ?_, ?_⟩
    · by_contra hidle
      rw [if_neg hidle] at hbefore
      omega
    · by_contra hanswer
      rw [Bool.not_eq_false] at hanswer
      rw [hanswer, if_pos rfl, hbefore] at hcount
      split at hcount <;> omega

/-- While a fetch of a query is under way, asking for another makes the query dirty. -/
theorem dirty_of_asksFor (occurs : h.Occurs setup) (asks : h.asksFor query = true)
    (before : h.before.store.query? query = some p) (follows : p.config.skip = false)
    (busy : p.inFlight = true) (after : h.after.store.query? query = some q) :
    q.dirty = true := by
  rw [(occurs.of_asksFor asks).1, Store.query?_refetch_of_busy before follows busy] at after
  rw [← Option.some.inj after]
  rfl

end Happening.Occurs

/-- A fetch that is under way has begun at some point, and its query is dirty exactly if a
fetch was asked for since. -/
theorem Run.exists_flight (run : Run setup history w) (lives : w.store.query? query = some q)
    (busy : q.inFlight = true) :
    ∃ start since, Flight history query q.epoch start since ∧
      (q.dirty = true ↔ ∃ h ∈ since, h.asksFor query = true) := by
  induction history using List.reverseRecOn generalizing w q with
  | nil =>
    obtain rfl := run_nil.mp run
    cases lives
  | append_singleton history last ih =>
    have hsingle := run.single
    obtain ⟨hrun, hoccurs, rfl⟩ := run.concat
    have horderly := hrun.orderly
    by_cases hstart : ∃ request ∈ last.begun, request.isFor query q.epoch = true
    · obtain ⟨request, hbegun, hfor⟩ := hstart
      refine ⟨last, [], .of_begun hbegun hfor, ?_⟩
      simp only [Request.isFor, Bool.and_eq_true, beq_iff_eq] at hfor
      obtain ⟨rfl, -⟩ := hfor
      have hclean := hoccurs.not_dirty_of_begun horderly hbegun lives
      simp [hclean]
    · have hunbegun : ∀ request ∈ last.begun, request.isFor query q.epoch = false := by
        intro request hmem
        exact Bool.eq_false_iff.mpr fun hfor => hstart ⟨request, hmem, hfor⟩
      obtain ⟨p, hp, hepoch, hflying, hanswer⟩ :=
        hoccurs.inFlight_before hrun.single hsingle lives busy hunbegun
      obtain ⟨start, since, hflight, hdirty⟩ := ih hrun hp hflying
      rw [hepoch] at hflight
      refine ⟨start, since ++ [last], hflight.extend hanswer hunbegun, ?_⟩
      obtain ⟨name, hfind⟩ := hrun.lives.query?_eq_some.mp (World.query?_cache.trans hp)
      cases hasks : last.asksFor query with
      | true =>
        have hskip := (horderly.queries hfind).not_skip hflying
        have hnow := hoccurs.dirty_of_asksFor hasks hp hskip hflying lives
        refine iff_of_true hnow ⟨last, ?_, hasks⟩
        exact List.mem_append_right _ (List.mem_singleton_self _)
      | false =>
        rw [hoccurs.dirty_eq hp lives hasks (hepoch ▸ hanswer), hdirty]
        simp [hasks]

/-- The answer to the fetch of a life that goes on begins the next fetch exactly if the query
is dirty and somebody listens, and leaves the query clean. -/
theorem Happening.Occurs.of_answered {answer : Except Failure (QueryData × Fields)}
    (occurs : h.Occurs setup) (single : h.before.cache.Single)
    (lives : h.before.store.query? query = some q)
    (answers : h.act = .answered query q.epoch answer) :
    q.inFlight = true ∧
      (∃ service, h.begun = if q.dirty && h.before.store.hasListener query then
        [q.request query service] else []) ∧
      ∃ q', h.after.store.query? query = some q' ∧ q'.dirty = false := by
  refine ⟨occurs.inFlight_of_answered single lives answers, ?_,
    _, occurs.settled_of_answered lives answers, ?_⟩
  · obtain ⟨request, -, hfor, hcurrent, hhome, hafter⟩ :=
      occurs.exists_request_of_answered lives answers
    obtain ⟨rfl, -⟩ : request.query = query ∧ request.epoch = q.epoch := by
      simpa [Request.isFor] using hfor
    refine ⟨request.service, ?_⟩
    rw [← Store.launched_complete hcurrent hhome lives]
    refine Happening.begun_eq ?_
    rw [hafter, answers]
    rfl
  · rw [Query.settled]
    split <;> rfl

/-- What is asked for while a fetch is under way is not lost, and not done twice: the answer
begins one fetch if any was asked for since the answered one began and somebody listens, and
none otherwise; the mark is gone. What is asked for while none is under way begins one. -/
theorem Run.refetches_kept (run : Run setup (history ++ [last]) w) :
    (∀ query q answer, last.before.store.query? query = some q →
      last.act = .answered query q.epoch answer →
      ∃ start since, Flight history query q.epoch start since ∧
        ((∃ h ∈ since, h.asksFor query = true) → last.before.store.hasListener query = true →
          ∃ request, last.begun = [request] ∧ request.isFor query q.epoch = true) ∧
        (¬((∃ h ∈ since, h.asksFor query = true) ∧
          last.before.store.hasListener query = true) → last.begun = []) ∧
        ∃ q', last.after.store.query? query = some q' ∧ q'.dirty = false) ∧
    ∀ query q, last.before.store.query? query = some q → q.config.skip = false →
      (∀ request ∈ last.before.outstanding, request.isFor query q.epoch = false) →
      last.asksFor query = true →
      ∃ request, last.begun = [request] ∧ request.isFor query q.epoch = true := by
  have hoccurs := run.occurs last (List.mem_append_right _ (List.mem_singleton_self _))
  obtain ⟨hrun, -, -⟩ := run_concat.mp run
  have hisFor (q : Query) (query : QueryId) (service : String) :
      (q.request query service).isFor query q.epoch = true := by
    simp [Query.request, Request.isFor]
  refine ⟨fun query q answer lives answers => ?_, fun query q lives follows idle asks => ?_⟩
  · obtain ⟨hbusy, ⟨service, hbegun⟩, hclean⟩ :=
      hoccurs.of_answered hrun.single lives answers
    obtain ⟨start, since, hflight, hdirty⟩ := hrun.exists_flight lives hbusy
    refine ⟨start, since, hflight, fun hasked hlistens => ?_, fun hnot => ?_, hclean⟩
    · rw [hdirty.mpr hasked, hlistens] at hbegun
      exact ⟨_, hbegun, hisFor q query service⟩
    · rw [hbegun, if_neg]
      rw [Bool.and_eq_true, hdirty]
      exact hnot
  · obtain ⟨name, hfind⟩ := hrun.lives.query?_eq_some.mp (World.query?_cache.trans lives)
    have hfree : q.inFlight = false := by
      by_contra hbusy
      have hone := hrun.single _ _ _ hfind
      rw [if_pos (by simpa using hbusy)] at hone
      have hpos : 0 < last.before.cache.flights query q.epoch := by omega
      obtain ⟨request, hmem, hfor⟩ := Multiset.countP_pos.mp hpos
      rw [idle request hmem] at hfor
      cases hfor
    obtain ⟨service, hbegun⟩ := Store.launched_refetch_of_free lives follows hfree
    exact ⟨_, (hoccurs.of_asksFor asks).2.trans hbegun, hisFor q query service⟩

namespace Notes

def pressed : World := handed.play {} [.refetch ideas.id, .refetch ideas.id]

def pressedAnswer : Happening where
  before := pressed
  act := firstAnswer
  signal := none
  after := pressed.play {} [firstAnswer]

theorem run_pressedAnswer : ∃ history, Run {} (history ++ [pressedAnswer]) pressedAnswer.after := by
  obtain ⟨history, hrun⟩ := run_handed
  obtain ⟨signal, hact⟩ := World.act?_eq_some_play
    (show (pressed.act? {} firstAnswer).isSome = true by decide +kernel)
  obtain ⟨-, -, -, -, rfl⟩ := World.answered_eq hact
  exact ⟨_, .act (hrun.play _) hact⟩

/-- However often the ideas were asked for, the answer begins one more fetch. -/
theorem ideas_fetched_again :
    ∃ history start since, Run {} (history ++ [pressedAnswer]) pressedAnswer.after ∧
      Flight history ideas.id 1 start since ∧
      (∃ h ∈ since, h.asksFor ideas.id = true) ∧
      ∃ request, pressedAnswer.begun = [request] ∧ request.isFor ideas.id 1 = true := by
  obtain ⟨history, hrun⟩ := run_pressedAnswer
  have hlives : (pressed.store.query? ideas.id).any (·.epoch == 1) = true := by decide +kernel
  obtain ⟨q, hq, hepoch⟩ := (Option.any_eq_true _ _).mp hlives
  have hepoch : q.epoch = 1 := beq_iff_eq.mp hepoch
  obtain ⟨hanswers, -⟩ := Run.refetches_kept hrun
  obtain ⟨start, since, hflight, hsome, hnone, -⟩ :=
    hanswers ideas.id q _ hq (by rw [hepoch]; rfl)
  rw [hepoch] at hflight hsome
  have hbegun : pressedAnswer.begun.isEmpty = false := by decide +kernel
  obtain ⟨hasked, hlistens⟩ := not_imp_comm.mp hnone fun hempty => by
    rw [hempty] at hbegun
    cases hbegun
  exact ⟨history, start, since, hrun, hflight, hasked, hsome hasked hlistens⟩

end Notes

end LiveQuery
