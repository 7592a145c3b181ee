import LiveQuery.Proofs.Cache.Freshness
import LiveQuery.Proofs.Store.Agenda

/-!
# Abandoned queries

The store begins fetches on its own: after an answer, for a query that was asked for meanwhile, and
after changes, for a query that is fetched again whenever something changes. In the first case it
looks for listeners and begins the fetch in one transition (`Store.hasListener_of_launched`). In
the second it looks for them when the changes are applied, and calls listeners before the fetch
begins. If the last listener of the query leaves in such a call, the query is fetched for nobody
(`Happening.Abandons`); otherwise somebody listens when the fetch begins
(`Run.begun_for_listeners`).
-/

namespace LiveQuery

/-- The last listener of a query leaves while the query is to be fetched again. -/
def Happening.Abandons (h : Happening) (query : QueryId) : Prop :=
  .work (.refetch query) ∈ h.before.agenda ∧ h.before.store.hasListener query = true ∧
    h.after.store.hasListener query = false

variable {setup : Setup} {history : List Happening} {w : World} {h : Happening}
variable {query : QueryId} {request : Request}

theorem Store.hasListener_congr {s s' : Store} (same : s'.registry = s.registry) :
    s'.hasListener query = s.hasListener query := by
  unfold hasListener listenersOf
  rw [show s'.listeners = s.listeners from congrArg Registry.listeners same]

theorem World.hasListener_of_errand {w' : World} {a : Act} {signal : Option Signal}
    (h : w.act? setup a = some (w', signal)) (planned : .refetch query ∈ w.errands setup a) :
    w'.store.hasListener query = true := by
  obtain ⟨hstore, -⟩ := transition_of_act h
  cases errand_of_mem planned with
  | @refetch name changes others query agenda wanted =>
    have hlistened : w.store.hasListener query = true := by
      unfold Store.refetched at wanted
      dsimp only at wanted
      split at wanted
      · cases wanted
      · exact (List.mem_filter.mp wanted).2
    rw [hstore, transition, agenda]
    exact (Store.hasListener_congr (Store.registry_apply name changes)).trans hlistened

/-- A query that is to be fetched again, because something has changed, is listened to, unless it
has been abandoned. -/
theorem Run.hasListener_of_wanted (run : Run setup history w)
    (loyal : ∀ h ∈ history, ¬h.Abandons query) (wanted : .work (.refetch query) ∈ w.agenda) :
    w.store.hasListener query = true := by
  induction history using List.reverseRecOn generalizing w with
  | nil =>
    rw [run_nil.mp run] at wanted
    cases wanted
  | append_singleton history last ih =>
    obtain ⟨hrun, hoccurs, rfl⟩ := run.concat
    rcases World.planned_or_rest hoccurs.act wanted with hplanned | hrest
    · exact World.hasListener_of_errand hoccurs.act (World.mem_errands hplanned rfl)
    · have hbefore := World.mem_of_mem_rest hrest
      have hlistened := ih hrun (fun h hmem => loyal h (List.mem_append_left _ hmem)) hbefore
      by_contra hgone
      exact loyal last List.mem_concat_self ⟨hbefore, hlistened, Bool.eq_false_iff.mpr hgone⟩

namespace Happening.Occurs

theorem causes_of_begun (occurs : h.Occurs setup) (begun : request ∈ h.begun) :
    h.before.Causes h.act (.begun request) := by
  obtain ⟨own, hcauses, -, hbegun⟩ := occurs.exists_own
  rw [hbegun] at begun
  obtain ⟨move, rfl, hmove⟩ := Option.bind_eq_some_iff.mp (Option.mem_toList.mp begun)
  cases move with
  | begun r =>
    obtain rfl := Option.some.inj hmove
    exact hcauses _ rfl
  | born | deferred | answered | merged | vacuumed => cases hmove

theorem hasListener_of_answered {epoch : Nat} {answer : Except Failure (QueryData × Fields)}
    (occurs : h.Occurs setup) (begun : request ∈ h.begun)
    (answers : h.act = .answered query epoch answer) : h.before.store.hasListener query = true := by
  have hact := occurs.act
  rw [answers] at hact
  obtain ⟨answered, -, hfor, hafter, -⟩ := World.answered_eq hact
  obtain ⟨rfl, -⟩ : answered.query = query ∧ answered.epoch = epoch := by
    simpa [Request.isFor] using hfor
  have hlaunched : h.begun = (h.before.store.complete setup answered answer).2.filterMap
      Work.launched? := by
    refine Happening.begun_eq ?_
    rw [hafter, answers]
    rfl
  rw [hlaunched] at begun
  exact Store.hasListener_of_launched begun

end Happening.Occurs

/-- A fetch that the store begins on its own is begun for somebody who listens: always after an
answer, and after changes unless the query has been abandoned. -/
theorem Run.begun_for_listeners (run : Run setup (history ++ [h]) w) (begun : request ∈ h.begun)
    (own : h.act ≠ .subscribe request.query ∧ h.act ≠ .refetch request.query)
    (loyal : h.act = .goOn → ∀ x ∈ history, ¬x.Abandons request.query) :
    h.before.store.hasListener request.query = true := by
  obtain ⟨hrun, hoccurs, -⟩ := run.concat
  rcases hoccurs.causes_of_begun begun with hsubscribes | hasks | ⟨epoch, answer, hanswers⟩
  · exact absurd hsubscribes own.1
  · rcases World.asksFor_iff.mp hasks with hrefetch | ⟨hgoOn, others, hagenda⟩
    · exact absurd hrefetch own.2
    · exact hrun.hasListener_of_wanted (loyal hgoOn) (hagenda ▸ List.mem_cons_self)
  · exact hoccurs.hasListener_of_answered begun hanswers

namespace Notes

/-- Somebody listens to the ideas, and somebody else to the ideas that are fetched again whenever a
note changes. An idea is added, and the first one is told. -/
def sharing : List Act :=
  [.materialize ideas, .goOn, .giveBack, .goOn, .subscribe ideas.id, .goOn, .giveBack, .goOn,
    firstAnswer, .goOn, .giveBack,
    .materialize freshIdeas, .goOn, .subscribe freshIdeas.id, .goOn, .giveBack, .goOn,
    .answered freshIdeas.id 2 (.ok (.list [note 1 100 "idea"], [])), .goOn, .giveBack,
    .emit ⟨"notes", .created, note 2 200 "idea"⟩, .goOn, .flush, .goOn, .goOn]

def oneLeaves : List Act := sharing ++ [.unsubscribe ideas.id ⟨1⟩ none, .giveBack]

def otherLeaves : List Act := sharing ++ [.unsubscribe freshIdeas.id ⟨2⟩ none, .giveBack]

/-- The ideas are fetched again after some acts. -/
def fetching (acts : List Act) : Happening where
  before := World.play {} {} acts
  act := .goOn
  signal := none
  after := (World.play {} {} acts).play {} [.goOn]

/-- The ideas are fetched again for the one who listens to them. -/
theorem fetched_for_second :
    Run {} (World.played {} {} oneLeaves ++ [fetching oneLeaves]) (fetching oneLeaves).after ∧
      ∃ request ∈ (fetching oneLeaves).begun, request.query = freshIdeas.id ∧
        (fetching oneLeaves).before.store.hasListener request.query = true := by
  have hrun : Run {} (World.played {} {} oneLeaves ++ [fetching oneLeaves])
      (fetching oneLeaves).after :=
    (Run.start.play oneLeaves).act (World.act?_eq_play (by decide +kernel))
  have hstays : (World.played {} {} oneLeaves).all (fun h =>
      !(h.before.store.hasListener freshIdeas.id && !h.after.store.hasListener freshIdeas.id)) =
        true := by decide +kernel
  have hbegun : (fetching oneLeaves).begun.any (·.query = freshIdeas.id) = true := by
    decide +kernel
  obtain ⟨request, hmem, hquery⟩ := List.any_eq_true.mp hbegun
  have hquery : request.query = freshIdeas.id := of_decide_eq_true hquery
  refine ⟨hrun, request, hmem, hquery, Run.begun_for_listeners hrun hmem ⟨nofun, nofun⟩ ?_⟩
  rintro - h hh ⟨-, hbefore, hafter⟩
  rw [hquery] at hbefore hafter
  have hstill := List.all_eq_true.mp hstays h hh
  rw [hbefore, hafter] at hstill
  cases hstill

/-- The ideas are fetched again, but nobody listens to them. -/
theorem fetched_for_nobody :
    Run {} (World.played {} {} otherLeaves ++ [fetching otherLeaves])
        (fetching otherLeaves).after ∧
      freshIdeas.config.realtime = .refetch ∧ (fetching otherLeaves).act = .goOn ∧
      (fetching otherLeaves).begun.map Request.query = [freshIdeas.id] ∧
      (fetching otherLeaves).before.store.hasListener freshIdeas.id = false :=
  ⟨(Run.start.play otherLeaves).act (World.act?_eq_play (by decide +kernel)), rfl, rfl,
    by decide +kernel, by decide +kernel⟩

end Notes

end LiveQuery
