import LiveQuery.Proofs.Store.CacheFirst
import LiveQuery.Proofs.Store.Homes

/-!
# Network-only queries

A network-only query is to be fetched whenever somebody comes to listen and nobody else does.
Nothing in the coming of a listener sees to that. A query is taken out of the cache when the last
of its listeners leaves, so whoever comes next finds a query that waits for its first fetch. Two
things get around this (`Happening.Strands`): a fetch is asked for while nobody listens, and the
last listener leaves but wants the query kept. From then on a result may lie in the cache that the
next listener is shown and that is not fetched anew. Otherwise a query that lives is listened to
or waits for its first fetch (`Run.heard_or_pending`), and the next listener finds it being
fetched (`Run.network_only_mounts`).
-/

namespace LiveQuery

/-- The store after somebody has come to listen through a reference: the query is brought to life
unless it lives already, and the listener is registered. -/
def Store.mount (setup : Setup) (s : Store) (ref : QueryRef) : Store :=
  ((s.materialize setup ref).1.subscribe ref.id).2.1

/-- Does a listener leave a query and want it kept? -/
def Act.keeps (query : QueryId) : Act → Bool
  | .unsubscribe left _ (some false) => left == query
  | _ => false

/-- Does something happen to a life of a query that may leave it with a result and without
listeners? -/
def Happening.Strands (h : Happening) (query : QueryId) (epoch : Nat) : Prop :=
  (∃ q, h.before.store.query? query = some q ∧ q.epoch = epoch) ∧
    h.after.store.hasListener query = false ∧
    (h.asksFor query = true ∨ h.act.keeps query = true)

variable {setup : Setup} {history : List Happening} {w : World} {h : Happening}
variable {query : QueryId} {listener : ListenerId} {vacuum : Option Bool} {p q : Query}

/-! ## Coming to a query -/

namespace Query

theorem Orderly.fetched_or_shown (orderly : q.Orderly) (follows : q.config.skip = false) :
    q.inFlight = true ∨ q.wantsFetch = true ∨
      q.pending = false ∧ q.state.status = .success ∧ q.state.isFetching = false := by
  cases orderly with
  | idle skip =>
    rw [follows] at skip
    cases skip
  | loading _ _ state =>
    cases hpending : q.pending with
    | true => exact Or.inr (Or.inl (by simp [wantsFetch, hpending]))
    | false => exact Or.inl (by simp [inFlight, hpending, state])
  | success _ begun _ status =>
    cases hfetching : q.state.isFetching with
    | true => exact Or.inl (by simp [inFlight, begun, hfetching])
    | false => exact Or.inr (Or.inr ⟨begun, status, rfl⟩)
  | error _ _ _ _ state => exact Or.inr (Or.inl (by simp [wantsFetch, state]))

theorem free_of_wantsFetch (wants : q.wantsFetch = true) : q.inFlight = false := by
  unfold wantsFetch at wants
  unfold inFlight
  cases hpending : q.pending with
  | true => rfl
  | false =>
    cases hfetching : q.state.isFetching with
    | true => simp [hpending, hfetching] at wants
    | false => rfl

end Query

namespace Store

variable {s : Store}

theorem query?_subscribe (found : s.query? query = some q) :
    (s.subscribe query).2.1.query? query = some (if q.wantsFetch then q.begun else q) := by
  let s' : Store := { s with
    registered := s.registered + 1
    listeners := s.listeners ++ [(query, ⟨s.registered + 1⟩)] }
  have hfound : s'.query? query = some q := found
  have hsubscribe : (s.subscribe query).2 =
      if q.wantsFetch then s'.fetchNow query else (s', []) := by
    show (if ((s'.query? query).map Query.wantsFetch).getD false then _ else _) = _
    rw [hfound]
    rfl
  rw [hsubscribe]
  split
  · next hwants =>
    obtain ⟨home, hhome, -⟩ := exists_home hfound
    rw [fetchNow, beginFetch?_of_free hhome hfound (Query.free_of_wantsFetch hwants)]
    show (s'.setService home ((s'.service home).fetching query)).query? query = _
    rw [query?_alters hhome Service.alters_fetching (cache_setService _ _), if_pos rfl, hfound]
    rfl
  · exact hfound

theorem query?_materialize (setup : Setup) (s : Store) (ref : QueryRef) :
    (s.materialize setup ref).1.query? ref.id =
      some ((s.query? ref.id).getD (Query.new ref.descriptor ref.config
        (filterOf setup ref.descriptor ref.config) s.nextEpoch)) := by
  cases hfound : s.query? ref.id with
  | some q =>
    rw [materialize_of_living ref (by rw [hfound]; rfl)]
    exact hfound
  | none =>
    simp only [materialize, hfound, Option.isSome_none, Bool.false_eq_true, if_false,
      Option.getD_none]
    simp [query?, setService]

theorem query?_unsubscribe_of_unheard (found : s.query? query = some q)
    (unheard : (s.unsubscribe setup query listener vacuum).1.hasListener query = false)
    (vacuums : vacuum.getD (q.config.fetchPolicy == .networkOnly) = true) :
    (s.unsubscribe setup query listener vacuum).1.query? query = none := by
  let s' : Store := { s with listeners := s.listeners.filter (· ≠ (query, listener)) }
  have hregistry : s'.registry = (s.unsubscribe setup query listener vacuum).1.registry :=
    (registry_unsubscribe listener vacuum).symm
  have hunheard : s'.hasListener query = false := (hasListener_congr hregistry).trans unheard
  obtain ⟨home, hhome, hq⟩ := exists_home found
  have hvacuums : vacuum.getD (((s'.query? query).map
      fun q => q.config.fetchPolicy == .networkOnly).getD false) = true := by
    rw [show s'.query? query = some q from found]
    exact vacuums
  unfold unsubscribe
  dsimp only
  split
  · next hheard => exact absurd hheard (Bool.eq_false_iff.mp hunheard)
  split
  · next hnowhere => cases hnowhere.symm.trans hhome
  next home' hhome' =>
  obtain rfl : home' = home := Option.some.inj (hhome'.symm.trans hhome)
  split
  · rw [query?_eq]
    show ((s.homes.erase query).get? query).bind _ = none
    rw [Table.get?_erase_self, Option.bind_none]
  · next hmissing => cases hq.symm.trans (Option.map_eq_none_iff.mp hmissing)

end Store

namespace Registry

theorem listens_after_or_leaves {a : Registry} (listens : (query, listener) ∈ a.listeners)
    (act : Act) :
    (query, listener) ∈ (a.after act).listeners ∨
      ∃ vacuum, act = .unsubscribe query listener vacuum := by
  cases act with
  | subscribe => exact Or.inl (List.mem_append_left _ listens)
  | unsubscribe x l vacuum =>
    by_cases hleaves : (query, listener) = (x, l)
    · cases hleaves
      exact Or.inr ⟨vacuum, rfl⟩
    · exact Or.inl (List.mem_filter.mpr ⟨listens, decide_eq_true hleaves⟩)
  | materialize | refetch | watch | unwatch | emit | flush | mutated | answered | timedOut | tick
  | goOn | giveBack => exact Or.inl listens

end Registry

namespace Happening.Occurs

theorem leaves_of_unheard (occurs : h.Occurs setup)
    (heard : h.before.store.hasListener query = true)
    (unheard : h.after.store.hasListener query = false) :
    ∃ listener vacuum, h.act = .unsubscribe query listener vacuum := by
  obtain ⟨listener, hlistens⟩ := Store.hasListener_iff.mp heard
  have hlistens : (query, listener) ∈ h.before.store.registry.listeners := hlistens
  rcases Registry.listens_after_or_leaves hlistens h.act with hstays | hleaves
  · have hheard := Store.hasListener_iff.mpr ⟨listener, occurs.listeners_eq ▸ hstays⟩
    rw [unheard] at hheard
    cases hheard
  · exact ⟨listener, hleaves⟩

theorem store_eq_mount (occurs : h.Occurs setup) {ref : QueryRef}
    (comes : h.act = .subscribe ref.id)
    (lives : (h.before.store.query? ref.id).isSome = true) :
    h.after.store = h.before.store.mount setup ref := by
  obtain ⟨hstore, -⟩ := World.transition_of_act occurs.act
  rw [comes, World.transition] at hstore
  rw [hstore, Store.mount, Store.materialize_of_living ref lives]

theorem hasListener_of_comes (occurs : h.Occurs setup) (comes : h.act = .subscribe query) :
    h.after.store.hasListener query = true := by
  rw [Store.hasListener_iff, occurs.listeners_eq, comes]
  exact ⟨_, List.mem_concat_self⟩

theorem pending_after (occurs : h.Occurs setup) (before : h.before.store.query? query = some p)
    (after : h.after.store.query? query = some q) (pending : p.pending = true)
    (unbegun : ∀ request ∈ h.begun, request.query ≠ query) : q.pending = true := by
  obtain ⟨own, -, hsteps, hbegun⟩ := occurs.exists_own
  obtain ⟨name, hp, hq, -⟩ := occurs.exists_find? before after
  refine hsteps.related (R := fun p q => p.pending = true → q.pending = true)
    (fun _ => id) (fun hpq hqr hp => hqr (hpq hp)) ?_ occurs.lives
    (occurs.not_vacuumed hsteps after) hp hq rfl pending
  intro move p r hmem halters _ hpending
  cases halters with
  | unaltered | deferred => exact hpending
  | @begun request hasked =>
    rcases List.mem_append.mp hmem with hmem | hmem
    · exact absurd trivial (occurs.not_isInner_of_mem_reaching hmem)
    · rw [Option.mem_toList.mp hmem] at hbegun
      exact absurd hasked (unbegun request (hbegun ▸ List.mem_singleton_self _))
  | @answered _ answer =>
    cases answer with
    | ok | error => exact hpending
  | merged standing => exact (congrArg (·.2.2.2.1) standing).trans hpending

theorem strands_of_unheard (occurs : h.Occurs setup)
    (before : h.before.store.query? query = some p) (after : h.after.store.query? query = some q)
    (policy : p.config.fetchPolicy = .networkOnly)
    (heard : h.before.store.hasListener query = true)
    (unheard : h.after.store.hasListener query = false) : h.Strands query p.epoch := by
  obtain ⟨listener, vacuum, hleaves⟩ := occurs.leaves_of_unheard heard unheard
  obtain ⟨hstore, -⟩ := World.transition_of_act occurs.act
  rw [hleaves, World.transition] at hstore
  refine ⟨⟨p, before, rfl⟩, unheard, Or.inr ?_⟩
  rw [hstore] at after unheard
  cases hvacuums : vacuum.getD (p.config.fetchPolicy == .networkOnly) with
  | true =>
    rw [Store.query?_unsubscribe_of_unheard before unheard hvacuums] at after
    cases after
  | false =>
    have hkept : vacuum = some false := by
      cases vacuum with
      | none => simp [policy] at hvacuums
      | some vacuums => exact congrArg some hvacuums
    rw [hleaves, hkept]
    exact beq_self_eq_true query

/-- A query that waits for its first fetch goes on doing so while nobody listens, unless it is
stranded. -/
theorem pending_or_strands (occurs : h.Occurs setup)
    (before : h.before.store.query? query = some p) (after : h.after.store.query? query = some q)
    (pending : p.pending = true) (unheard : h.after.store.hasListener query = false) :
    q.pending = true ∨ h.Strands query p.epoch := by
  by_cases hbegun : ∃ request ∈ h.begun, request.query = query
  · obtain ⟨request, hmem, rfl⟩ := hbegun
    rcases occurs.causes_of_begun hmem with hcomes | hasks | ⟨_, _, hanswers⟩
    · rw [occurs.hasListener_of_comes hcomes] at unheard
      cases unheard
    · exact Or.inr ⟨⟨p, before, rfl⟩, unheard, Or.inl hasks⟩
    · have hheard := occurs.hasListener_of_answered hmem hanswers
      obtain ⟨_, _, hleaves⟩ := occurs.leaves_of_unheard hheard unheard
      cases hanswers.symm.trans hleaves
  · exact Or.inl (occurs.pending_after before after pending fun request hmem his =>
      hbegun ⟨request, hmem, his⟩)

end Happening.Occurs

/-! ## Runs -/

/-- A network-only query that lives is listened to or waits for its first fetch, unless its life
has been stranded. -/
theorem Run.heard_or_pending (run : Run setup history w)
    (lives : w.store.query? query = some q) (policy : q.config.fetchPolicy = .networkOnly)
    (follows : q.config.skip = false) :
    w.store.hasListener query = true ∨ q.pending = true ∨
      ∃ h ∈ history, h.Strands query q.epoch := by
  induction history using List.reverseRecOn generalizing w q with
  | nil =>
    rw [run_nil.mp run] at lives
    cases lives
  | append_singleton history last ih =>
    obtain ⟨hrun, hoccurs, rfl⟩ := run.concat
    cases hheard : last.after.store.hasListener query with
    | true => exact Or.inl rfl
    | false =>
      refine Or.inr ?_
      cases hbefore : last.before.store.query? query with
      | none =>
        obtain ⟨ref, rfl⟩ := hoccurs.eq_new_of_births ⟨hbefore, lives⟩
        exact Or.inl (congrArg (!·) follows)
      | some p =>
        have hlife := hoccurs.life_eq hbefore lives
        have hconfig : q.config = p.config := congrArg Life.config hlife
        have hepoch : q.epoch = p.epoch := congrArg Life.epoch hlife
        rw [hconfig] at policy follows
        rw [hepoch]
        have hlast : last ∈ history ++ [last] := List.mem_concat_self
        rcases ih hrun hbefore policy follows with hlistened | hpending | ⟨h, hmem, hstrands⟩
        · have hstrands := hoccurs.strands_of_unheard hbefore lives policy hlistened hheard
          exact Or.inr ⟨last, hlast, hstrands⟩
        · exact (hoccurs.pending_or_strands hbefore lives hpending hheard).imp id
            fun hstrands => ⟨last, hlast, hstrands⟩
        · exact Or.inr ⟨h, List.mem_append_left _ hmem, hstrands⟩

theorem Run.heard_or_pending_of_asked (run : Run setup history w) {ref : QueryRef}
    (asked : (w.store.materialize setup ref).1.query? ref.id = some q) :
    q.Orderly ∧ (q.config.fetchPolicy = .networkOnly → q.config.skip = false →
      w.store.hasListener ref.id = true ∨ q.pending = true ∨
        ∃ h ∈ history, h.Strands ref.id q.epoch) := by
  have hasked := (w.store.query?_materialize setup ref).symm.trans asked
  cases hlives : w.store.query? ref.id with
  | none =>
    rw [hlives, Option.getD_none] at hasked
    obtain rfl := Option.some.inj hasked
    exact ⟨Query.orderly_new _ _ _ _, fun _ follows => Or.inr (Or.inl (congrArg (!·) follows))⟩
  | some p =>
    rw [hlives, Option.getD_some] at hasked
    obtain rfl := Option.some.inj hasked
    obtain ⟨name, hfind⟩ := run.lives.query?_eq_some.mp (World.query?_cache.trans hlives)
    exact ⟨run.orderly.queries hfind, run.heard_or_pending hlives⟩

namespace Notes

def latestIdeas : QueryRef where
  descriptor := ideas.descriptor
  config := { fetchPolicy := .networkOnly }
  id := ⟨"q/68cf6b396d485c14"⟩
  id_eq := by decide +kernel

/-- Two listen to the ideas and ask for them once more. One leaves and wants the ideas kept, then
the other does. Somebody looks at what is there. -/
def visiting : List Act :=
  [.materialize latestIdeas, .goOn, .giveBack, .goOn, .subscribe latestIdeas.id, .goOn, .giveBack,
    .goOn, .answered latestIdeas.id 1 (.ok (.list [note 1 100 "idea"], [])), .goOn, .giveBack,
    .subscribe latestIdeas.id, .refetch latestIdeas.id, .goOn, .giveBack, .goOn, .giveBack, .goOn,
    .unsubscribe latestIdeas.id ⟨2⟩ (some false),
    .answered latestIdeas.id 1 (.ok (.list [note 1 100 "idea"], [])), .goOn, .giveBack,
    .unsubscribe latestIdeas.id ⟨1⟩ none, .materialize latestIdeas, .goOn]

def visited : World := World.play {} {} visiting

def visitor : Happening where
  before := visited
  act := .subscribe latestIdeas.id
  signal := none
  after := visited.play {} [.subscribe latestIdeas.id]

def peeking : List Act :=
  [.materialize latestIdeas, .goOn, .giveBack, .goOn, .refetch latestIdeas.id, .goOn,
    .answered latestIdeas.id 1 (.ok (.list [note 1 100 "idea"], []))]

def peeked : World := World.play {} {} peeking

end Notes

end LiveQuery
