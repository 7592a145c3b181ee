import LiveQuery.Proofs.Cache.Lifecycle
import LiveQuery.Proofs.Store.Eviction

/-!
# Entities that are left over

The entity of an id goes with the last membership of the id, unless a query that does not merge
events still shows it. When such a query lets go of the id later on, nobody looks at the entity any
more, and it is left over. There is no other way: an entity that has been in the index, and has been
cached ever since, is shown by some query, or the last to let go of it was a query that does not
merge events, in an answer to its fetch or at its end (`Run.indexed_shown_or_let_go`). Between two
states of a service that acts lead to, the states count here that the service goes through while it
merges the changes of a batch one by one (`trail`).
-/

namespace LiveQuery

namespace Service

variable {conv : Conventions} {s s' held : Service} {id : ItemId} {query : QueryId}
variable {changes : List Change} {writes : List Write} {early later : List Service}

/-- The states that a service goes through while changes are merged one after the other. -/
def course (conv : Conventions) (s : Service) : List Change → List Service
  | [] => [s]
  | change :: changes => s :: (s.mergeAll conv [change]).service.course conv changes

theorem course_eq_cons (conv : Conventions) (s : Service) (changes : List Change) :
    ∃ rest, s.course conv changes = s :: rest := by
  cases changes with
  | nil => exact ⟨[], rfl⟩
  | cons => exact ⟨_, rfl⟩

theorem Mirror.isShown_of_contains (h : s.Mirror conv) (indexed : s.index.contains id = true) :
    s.IsShown conv id := by
  obtain ⟨query, hheld⟩ := List.exists_mem_of_ne_nil _ (h.tidy.contains_iff.mp indexed)
  obtain ⟨q, hq, -, hshows⟩ := h.mem_holders.mp hheld
  exact ⟨query, q, hq, hshows⟩

theorem Evolves.unheld (h : s.Evolves conv writes s') (unseen : ¬s'.IsShown conv id)
    (ended : s'.index.holders id = []) (cached : s'.entities.contains id = true) :
    s.index.holders id = [] := by
  by_contra hheld
  rw [Table.contains_eq_true, h.dropped ⟨hheld, ended, unseen⟩] at cached
  obtain ⟨_, hnone⟩ := cached
  cases hnone

theorem Mirror.exists_unmerging (h : s.Mirror conv) (shown : s.IsShown conv id)
    (unheld : s.index.holders id = []) :
    ∃ query q, s.queries.get? query = some q ∧ q.merges = false ∧ q.Shows conv id := by
  obtain ⟨query, q, hq, hshows⟩ := shown
  refine ⟨query, q, hq, Bool.eq_false_iff.mpr fun hmerges => ?_, hshows⟩
  have hholds := h.mem_holders.mpr ⟨q, hq, hmerges, hshows⟩
  rw [unheld] at hholds
  cases hholds

theorem Mirror.ended (h : s.Mirror conv) (unseen : ¬s.IsShown conv id) :
    s.index.holders id = [] := by
  by_contra hheld
  exact unseen (h.isShown_of_contains (h.tidy.contains_iff.mpr hheld))

theorem Mirror.isShown_mergeAll_singleton (h : s.Mirror conv) {change : Change}
    (shown : s.IsShown conv id)
    (cached : (s.mergeAll conv [change]).service.entities.contains id = true) :
    (s.mergeAll conv [change]).service.IsShown conv id := by
  by_contra hunseen
  have hunheld : s.index.holders id = [] := by
    have hended := (h.mergeAll [change]).ended hunseen
    cases ha : s.admits? conv change with
    | none => rwa [mergeAll_singleton_of_rejects ha] at hended
    | some named =>
      have hevolves := h.evolves_mergeChange (admits?_eq_some.mp ha).1
      rw [mergeAll_singleton_of_admits ha] at hunseen hended cached
      exact hevolves.unheld hunseen hended cached
  obtain ⟨query, q, hq, hnot, hshows⟩ := h.exists_unmerging shown hunheld
  exact hunseen ⟨query, q, get?_mergeAll_of_not_merges hq hnot [change], hshows⟩

theorem Mirror.course (h : s.Mirror conv) (mem : s' ∈ s.course conv changes) : s'.Mirror conv := by
  induction changes generalizing s with
  | nil => rwa [List.mem_singleton.mp mem]
  | cons change changes ih =>
    rcases List.mem_cons.mp mem with rfl | hlater
    · exact h
    · exact ih (h.mergeAll [change]) hlater

theorem Mirror.isShown_mergeAll (h : s.Mirror conv)
    (course : s.course conv changes = early ++ held :: later) (shown : held.IsShown conv id)
    (cached : ∀ t ∈ later, t.entities.contains id = true) :
    (s.mergeAll conv changes).service.IsShown conv id := by
  induction changes generalizing s early held later with
  | nil =>
    rcases List.append_eq_singleton_iff.mp course.symm with ⟨-, hlast⟩ | ⟨-, hnone⟩
    · obtain ⟨rfl, -⟩ := List.cons_eq_cons.mp hlast
      exact shown
    · cases hnone
  | cons change changes ih =>
    rw [mergeAll_cons]
    cases early with
    | nil =>
      obtain ⟨rfl, rfl⟩ := List.cons_eq_cons.mp course
      obtain ⟨rest, hrest⟩ := course_eq_cons conv (s.mergeAll conv [change]).service changes
      rw [hrest] at cached
      have hnext := h.isShown_mergeAll_singleton shown (cached _ List.mem_cons_self)
      rw [← List.nil_append (_ :: rest)] at hrest
      exact ih (h.mergeAll [change]) hrest hnext fun t ht => cached t (List.mem_cons_of_mem _ ht)
    | cons first early =>
      obtain ⟨-, hlater⟩ := List.cons_eq_cons.mp course
      exact ih (h.mergeAll [change]) hlater shown cached

end Service

/-- Can a query let go in an act of what it shows: is a fetch of it answered, or does a listener
leave it? -/
def Act.Frees (query : QueryId) : Act → Prop
  | .answered x _ _ | .unsubscribe x _ _ => x = query
  | _ => False

/-- Does a query that does not merge events let go of an id that no query holds, so that none shows
it any more? -/
structure Happening.LetsGo (setup : Setup) (h : Happening) (name : String) (id : ItemId) :
    Prop where
  unheld : (h.before.store.service name).index.holders id = []
  freed : ∃ query q, (h.before.store.service name).queries.get? query = some q ∧
    q.merges = false ∧ q.Shows setup.conventions id ∧ h.act.Frees query
  unseen : ¬(h.after.store.service name).IsShown setup.conventions id

/-- The states of a service that something leads through: before it, between the changes that it
merges, and after it. -/
def Happening.moments (setup : Setup) (h : Happening) (name : String) : List Service :=
  (h.before.store.service name).course setup.conventions (h.changes name) ++
    [h.after.store.service name]

/-- The states of a service that a history leads through. -/
def trail (setup : Setup) (name : String) (history : List Happening) : List Service :=
  history.flatMap (·.moments setup name)

variable {setup : Setup} {history : List Happening} {w : World} {h last : Happening}
variable {name : String} {id : ItemId} {early later : List Service} {held : Service}

theorem trail_concat :
    trail setup name (history ++ [last]) = trail setup name history ++ last.moments setup name := by
  simp [trail]

namespace Happening.Occurs

theorem changes_of_frees {query : QueryId} (frees : h.act.Frees query) : h.changes name = [] := by
  unfold changes
  split
  · next hact _ =>
    rw [hact] at frees
    exact frees.elim
  · rfl

theorem evolves_of_frees {query : QueryId} (occurs : h.Occurs setup) (frees : h.act.Frees query)
    (name : String) :
    (∃ writes, (h.before.store.service name).Evolves setup.conventions writes
        (h.after.store.service name)) ∧
      Service.AltersOnly query (h.before.store.service name) (h.after.store.service name) := by
  have hact := occurs.act
  cases ha : h.act with
  | answered x epoch answer =>
    rw [ha] at hact frees
    obtain rfl : x = query := frees
    obtain ⟨request, hmem, hfor, hafter, -⟩ := World.answered_eq hact
    obtain ⟨rfl, -⟩ : request.query = x ∧ request.epoch = epoch := by
      simpa [Request.isFor] using hfor
    rw [hafter]
    have hlives : (h.before.store.cache ↑h.before.outstanding).Lives := occurs.lives
    have hasked : request ∈ (↑h.before.outstanding : Multiset Request) :=
      Multiset.mem_coe.mpr (List.mem_append_right _ hmem)
    exact ⟨⟨_, Store.evolves_complete hlives hasked name⟩, Store.altersOnly_complete hlives name⟩
  | unsubscribe x listener vacuum =>
    rw [ha] at hact frees
    obtain rfl : x = query := frees
    obtain ⟨-, hafter⟩ := Option.ite_none_right_eq_some.mp hact
    have hstore : h.after.store = (h.before.store.unsubscribe setup x listener vacuum).1 :=
      congrArg (·.1.store) (Option.some.inj hafter).symm
    rw [hstore]
    rcases h.before.store.service_unsubscribe setup x listener vacuum with
      hsame | ⟨home, s', hvacuum, hservice⟩
    · rw [hsame]
      exact ⟨⟨[], Service.evolves_refl⟩, .refl _ _⟩
    rw [hservice]
    by_cases hname : name = home
    · subst hname
      rw [Function.update_self]
      exact ⟨⟨[], Service.evolves_vacuum hvacuum⟩, Service.altersOnly_vacuum hvacuum⟩
    · rw [Function.update_of_ne hname]
      exact ⟨⟨[], Service.evolves_refl⟩, .refl _ _⟩
  | materialize | subscribe | refetch | watch | unwatch | emit | flush | mutated | timedOut | tick
  | goOn | giveBack =>
    rw [ha] at frees
    exact frees.elim

theorem agrees_merged (occurs : h.Occurs setup) (keeps : ∀ query, ¬h.act.Frees query)
    (name : String) :
    Service.Agrees setup.conventions
      ((h.before.store.service name).mergeAll setup.conventions (h.changes name)).service
      (h.after.store.service name) := by
  obtain ⟨own, hcauses, hsteps, -⟩ := occurs.exists_own
  obtain ⟨mid, hreaching, hown⟩ := hsteps.exists_of_append
  have hmid : mid.service name =
      ((h.before.store.service name).mergeAll setup.conventions (h.changes name)).service := by
    rcases occurs.reaching_cases name with ⟨hnone, -, hchanges⟩ |
      ⟨request, answer, -, hanswers, -⟩ | ⟨service, changes, hone, -, hchanges⟩
    · rw [hnone] at hreaching
      cases hreaching
      rw [hchanges]
      rfl
    · exact absurd (show h.act.Frees request.query by rw [hanswers]; rfl) (keeps _)
    · rw [hone] at hreaching
      cases hreaching.step_of_singleton
      rw [hchanges, Cache.service_set]
      by_cases hname : name = service
      · subst hname
        rw [if_pos rfl, if_pos rfl]
        rfl
      · rw [if_neg hname, if_neg (Ne.symm hname)]
        rfl
  rw [← hmid]
  cases own with
  | none =>
    cases hown
    exact ⟨rfl, rfl, fun _ => Iff.rfl⟩
  | some move =>
    refine hown.step_of_singleton.agrees (occurs.lives.steps hreaching)
      (hcauses move rfl).isInner fun query hvacuumed => ?_
    obtain ⟨listener, vacuum, hleaves⟩ := hvacuumed ▸ hcauses move rfl
    exact keeps query (by rw [hleaves]; rfl)

/-- What is shown stays shown while its entity is there, or a query lets go of it that does not
merge events. -/
theorem isShown_or_letsGo (occurs : h.Occurs setup)
    (mirror : (h.before.store.service name).Mirror setup.conventions)
    (mirror' : (h.after.store.service name).Mirror setup.conventions)
    (moments : h.moments setup name = early ++ held :: later)
    (shown : held.IsShown setup.conventions id)
    (cached : ∀ s ∈ later, s.entities.contains id = true) :
    (h.after.store.service name).IsShown setup.conventions id ∨ h.LetsGo setup name id := by
  rcases List.eq_nil_or_concat' later with rfl | ⟨between, final, rfl⟩
  · obtain ⟨-, hafter⟩ := List.append_inj' moments rfl
    obtain ⟨rfl, -⟩ := List.cons_eq_cons.mp hafter
    exact Or.inl shown
  rw [← List.cons_append, ← List.append_assoc] at moments
  obtain ⟨hcourse, hafter⟩ := List.append_inj' moments rfl
  obtain ⟨rfl, -⟩ := List.cons_eq_cons.mp hafter
  have hmerged := mirror.isShown_mergeAll hcourse shown
    fun s hs => cached s (List.mem_append_left _ hs)
  by_cases hfrees : ∃ query, h.act.Frees query
  · obtain ⟨query, hfrees⟩ := hfrees
    obtain ⟨⟨writes, hevolves⟩, halters⟩ := occurs.evolves_of_frees hfrees name
    refine or_iff_not_imp_left.mpr fun hunseen => ?_
    rw [changes_of_frees hfrees] at hmerged
    have hunheld := hevolves.unheld hunseen (mirror'.ended hunseen) (cached _ List.mem_concat_self)
    obtain ⟨x, q, hq, hnot, hshows⟩ := mirror.exists_unmerging hmerged hunheld
    refine ⟨hunheld, ⟨x, q, hq, hnot, hshows, ?_⟩, hunseen⟩
    obtain rfl : x = query := by
      by_contra hx
      exact hunseen ⟨x, q, (halters x hx).1.trans hq, hshows⟩
    exact hfrees
  · exact Or.inl (((occurs.agrees_merged (not_exists.mp hfrees) name).shown id).mpr hmerged)

end Happening.Occurs

/-- What has been shown, and has been cached ever since, is shown, or a query that does not merge
events was the last to let go of it. -/
theorem Run.shown_or_let_go (run : Run setup history w)
    (split : trail setup name history = early ++ held :: later)
    (shown : held.IsShown setup.conventions id)
    (cached : ∀ s ∈ later, s.entities.contains id = true) :
    (w.store.service name).IsShown setup.conventions id ∨
      ∃ past gone rest, history = past ++ gone :: rest ∧ gone.LetsGo setup name id ∧
        ∀ s ∈ trail setup name rest, ¬s.IsShown setup.conventions id := by
  induction history using List.reverseRecOn generalizing w early held later with
  | nil => exact absurd split.symm (by simp [trail])
  | append_singleton history last ih =>
    have hmirror := run.mirror name
    obtain ⟨hrun, hoccurs, rfl⟩ := run.concat
    have hlast : ∀ {early held later}, last.moments setup name = early ++ held :: later →
        held.IsShown setup.conventions id → (∀ s ∈ later, s.entities.contains id = true) →
        (last.after.store.service name).IsShown setup.conventions id ∨
          ∃ past gone rest, history ++ [last] = past ++ gone :: rest ∧
            gone.LetsGo setup name id ∧
            ∀ s ∈ trail setup name rest, ¬s.IsShown setup.conventions id := by
      intro early held later hmoments hshown hcached
      refine (hoccurs.isShown_or_letsGo (hrun.mirror name) hmirror hmoments hshown
        hcached).imp_right fun hgone => ⟨history, last, [], rfl, hgone, List.forall_mem_nil _⟩
    rw [trail_concat] at split
    rcases List.append_eq_append_iff.mp split with ⟨more, -, hmoments⟩ | ⟨more, hearlier, hrest⟩
    · exact hlast hmoments shown cached
    cases more with
    | nil =>
      have hmoments : last.moments setup name = [] ++ held :: later := hrest.symm
      exact hlast hmoments shown cached
    | cons first more =>
      obtain ⟨rfl, rfl⟩ := List.cons_eq_cons.mp hrest
      by_cases hsome : ∃ s ∈ last.moments setup name, s.IsShown setup.conventions id
      · obtain ⟨s, hmem, hshown⟩ := hsome
        obtain ⟨front, back, hmoments⟩ := List.append_of_mem hmem
        refine hlast hmoments hshown fun t ht => cached t (List.mem_append_right _ ?_)
        rw [hmoments]
        exact List.mem_append_right _ (List.mem_cons_of_mem _ ht)
      · have hunseen : ∀ s ∈ last.moments setup name, ¬s.IsShown setup.conventions id :=
          fun s hs hshown => hsome ⟨s, hs, hshown⟩
        rcases ih hrun hearlier shown fun t ht => cached t (List.mem_append_left _ ht) with
          hbefore | ⟨past, gone, rest, rfl, hgone, hsince⟩
        · refine absurd hbefore (hunseen _ (List.mem_append_left _ ?_))
          obtain ⟨rest, hcourse⟩ := Service.course_eq_cons setup.conventions
            (last.before.store.service name) (last.changes name)
          rw [hcourse]
          exact List.mem_cons_self
        · refine Or.inr ⟨past, gone, rest ++ [last], by simp, hgone, fun s hs => ?_⟩
          rw [trail_concat] at hs
          rcases List.mem_append.mp hs with hs | hs
          · exact hsince s hs
          · exact hunseen s hs

theorem Run.mirror_of_mem_trail (run : Run setup history w)
    (mem : held ∈ trail setup name history) : held.Mirror setup.conventions := by
  obtain ⟨h, hmem, hheld⟩ := List.mem_flatMap.mp mem
  obtain ⟨past, rest, rfl⟩ := List.append_of_mem hmem
  have hafter := run.until.mirror name
  obtain ⟨hrun, -, -⟩ := run.until.concat
  rcases List.mem_append.mp hheld with hcourse | hlast
  · exact (hrun.mirror name).course hcourse
  · exact List.mem_singleton.mp hlast ▸ hafter

/-- An entity that the index has known, and that has been cached ever since, is in the index or
shown by some query, or the last to let go of it was a query that does not merge events: its fetch
was answered or its end came, when no query held the id any more. -/
theorem Run.indexed_shown_or_let_go (run : Run setup history w)
    (split : trail setup name history = early ++ held :: later)
    (indexed : held.index.contains id = true)
    (cached : ∀ s ∈ later, s.entities.contains id = true) :
    (w.store.service name).index.contains id = true ∨
      (w.store.service name).IsShown setup.conventions id ∨
      ∃ past gone rest, history = past ++ gone :: rest ∧ gone.LetsGo setup name id ∧
        ∀ s ∈ trail setup name rest, ¬s.IsShown setup.conventions id := by
  have hheld : held ∈ trail setup name history :=
    split ▸ List.mem_append_right _ List.mem_cons_self
  have hshown := (run.mirror_of_mem_trail hheld).isShown_of_contains indexed
  exact Or.inr (run.shown_or_let_go split hshown cached)

namespace Notes

def answering : Happening where
  before := handed
  act := firstAnswer
  signal := none
  after := landed

/-- Somebody reads the archive too. Then the ideas are given up, and after them the archive. -/
def givingUp : List Act :=
  [.goOn, .giveBack, .materialize archive, .subscribe archive.id, .goOn, .giveBack, .goOn,
    .answered archive.id 2 (.ok (.list [note 1 100 "idea"], [])), .goOn, .giveBack,
    .unsubscribe ideas.id ⟨1⟩ (some true), .unsubscribe archive.id ⟨2⟩ (some true)]

def givenUp : World := landed.play {} givingUp

theorem first_note_stays_cached : ∃ history early held later,
    Run {} history givenUp ∧ trail {} "notes" history = early ++ held :: later ∧
      held.index.contains (.int 1) = true ∧
      ∀ s ∈ later, s.entities.contains (.int 1) = true := by
  obtain ⟨history, hrun⟩ := run_handed
  have hlanded : Run {} (history ++ [answering]) landed :=
    .act hrun (World.act?_eq_play (by decide +kernel))
  have hcached : (trail {} "notes" (landed.played {} givingUp)).all
      (·.entities.contains (.int 1)) = true := by decide +kernel
  refine ⟨_, trail {} "notes" history ++ [handed.store.service "notes"],
    landed.store.service "notes", trail {} "notes" (landed.played {} givingUp),
    hlanded.play givingUp, ?_, by decide +kernel, List.all_eq_true.mp hcached⟩
  rw [trail, List.flatMap_append, List.flatMap_append, List.append_assoc, List.append_assoc]
  rfl

theorem first_note_unseen :
    (givenUp.store.service "notes").index.contains (.int 1) = false ∧
      ¬(givenUp.store.service "notes").IsShown Conventions.standard (.int 1) := by
  refine ⟨by decide +kernel, fun hshown => ?_⟩
  have hany := Service.shownByAny_eq_true.mpr hshown
  revert hany
  decide +kernel

/-- A query that does not merge events, the archive, was the last to let go of the first note. -/
theorem archive_lets_go : ∃ history past gone rest,
    Run {} history givenUp ∧ history = past ++ gone :: rest ∧ gone.LetsGo {} "notes" (.int 1) := by
  obtain ⟨history, early, held, later, hrun, hsplit, hindexed, hcached⟩ := first_note_stays_cached
  obtain ⟨hended, hunseen⟩ := first_note_unseen
  rcases hrun.indexed_shown_or_let_go hsplit hindexed hcached with
    hkey | hshown | ⟨past, gone, rest, heq, hgone, -⟩
  · rw [hended] at hkey
    cases hkey
  · exact absurd hshown hunseen
  · exact ⟨history, past, gone, rest, hrun, heq, hgone⟩

/-- The first note is left over: the index has known it, it has been cached ever since and still
is, and it is neither in the index nor shown by any query. -/
theorem first_note_left_over : ∃ history early held later,
    Run {} history givenUp ∧ trail {} "notes" history = early ++ held :: later ∧
      held.index.contains (.int 1) = true ∧
      (∀ s ∈ later, s.entities.contains (.int 1) = true) ∧
      (givenUp.store.service "notes").entities.contains (.int 1) = true ∧
      (givenUp.store.service "notes").index.contains (.int 1) = false ∧
      ¬(givenUp.store.service "notes").IsShown Conventions.standard (.int 1) := by
  obtain ⟨history, early, held, later, hrun, hsplit, hindexed, hcached⟩ := first_note_stays_cached
  exact ⟨history, early, held, later, hrun, hsplit, hindexed, hcached, by decide +kernel,
    first_note_unseen⟩

def comingBack : Service :=
  ((opened.store.service "notes").mergeAll Conventions.standard
    [⟨.removed, note 1 100 "idea"⟩, ⟨.created, note 1 200 "done"⟩]).service

/-- An entity can be gone between two changes of a batch and be there before and after. -/
example : comingBack.entities.contains (.int 1) = true ∧
    comingBack.index.contains (.int 1) = false ∧
    Service.shownByAny Conventions.standard comingBack.queries (.int 1) = false := by
  decide +kernel

end Notes

end LiveQuery
