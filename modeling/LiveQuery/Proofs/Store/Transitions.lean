import LiveQuery.Proofs.Cache.Beginnings

/-!
# What an act does to the store

Every act makes one transition of the store, if any, and what the transition leaves to be done
comes onto the agenda before all that was left earlier, apart from the control that the outside
may be given first (`World.agenda_of_act`).

The listeners, and what each of them has seen, are the store's *registry*. Only those who come
and go and the one who is called make a difference to it.
-/

namespace LiveQuery

/-- The transition of the store that an act makes. -/
def World.transition (setup : Setup) (w : World) : Act → Store × List Work
  | .materialize ref => w.store.materialize setup ref
  | .subscribe query => (w.store.subscribe query).2
  | .unsubscribe query listener vacuum => w.store.unsubscribe setup query listener vacuum
  | .refetch query => w.store.refetch query
  | .watch => (w.store.watch.2, [])
  | .unwatch listener => (w.store.unwatch listener, [])
  | .emit event => w.store.emit setup w.clock event
  | .flush => w.store.flush
  | .mutated service change => (w.store, [.apply service [change]])
  | .answered query epoch answer =>
    match w.requests.find? (·.isFor query epoch) with
    | some request => w.store.complete setup request answer
    | none => (w.store, [])
  | .timedOut window => w.store.flushWindow window
  | .goOn =>
    match w.agenda with
    | .work job :: _ => ((w.store.run setup job).1, (w.store.run setup job).2.1)
    | _ => (w.store, [])
  | .tick _ | .giveBack => (w.store, [])

/-- What the store asks of the outside in an act: only its work asks for anything. -/
def World.signal (setup : Setup) (w : World) (a : Act) : Option Signal :=
  match a, w.agenda with
  | .goOn, .work job :: _ => (w.store.run setup job).2.2
  | _, _ => none

/-- The control that the outside is given with a signal. -/
def Signal.given : Signal → List Turn
  | .call _ _ | .bind _ => [.outside]
  | .fetch _ | .timer _ _ | .unbind _ => []

/-- The listeners, and what they have seen. -/
structure Registry where
  listeners : List (QueryId × ListenerId)
  watchers : List ListenerId
  registered : Nat
  seen : Table ListenerId Nat

namespace Store

def registry (s : Store) : Registry := ⟨s.listeners, s.watchers, s.registered, s.seen⟩

variable {setup : Setup} {s : Store} {query : QueryId}

theorem hasListener_iff : s.hasListener query = true ↔ ∃ l, (query, l) ∈ s.listeners := by
  simp [hasListener, listenersOf]

theorem registry_modifyQuery (f : Query → Query) :
    (s.modifyQuery query f).registry = s.registry := by
  unfold modifyQuery
  split <;> rfl

theorem registry_of_beginFetch? {request : Request} {next : Store}
    (h : s.beginFetch? query = some (request, next)) : next.registry = s.registry := by
  obtain ⟨home, q, -, -, -, -, rfl⟩ := beginFetch?_eq_some h
  rfl

theorem registry_materialize (ref : QueryRef) :
    (s.materialize setup ref).1.registry = s.registry := by
  unfold materialize
  dsimp only
  split <;> rfl

theorem registry_fetchNow : (s.fetchNow query).1.registry = s.registry := by
  unfold fetchNow
  split
  · next request next h =>
    show next.registry = s.registry
    exact registry_of_beginFetch? h
  · rfl

theorem registry_subscribe : (s.subscribe query).2.1.registry = { s.registry with
    listeners := s.listeners ++ [(query, ⟨s.registered + 1⟩)]
    registered := s.registered + 1 } := by
  unfold subscribe
  dsimp only
  split
  · exact registry_fetchNow
  · rfl

theorem registry_unsubscribe (listener : ListenerId) (vacuum : Option Bool) :
    (s.unsubscribe setup query listener vacuum).1.registry =
      { s.registry with listeners := s.listeners.filter (· ≠ (query, listener)) } := by
  unfold unsubscribe
  dsimp only
  split
  · rfl
  split
  · rfl
  split
  · split <;> rfl
  · rfl

theorem query?_unsubscribe_of_listened {listener : ListenerId} {vacuum : Option Bool}
    (listened : (s.unsubscribe setup query listener vacuum).1.hasListener query = true)
    (x : QueryId) : (s.unsubscribe setup query listener vacuum).1.query? x = s.query? x := by
  have hleft : (s.unsubscribe setup query listener vacuum).1.listeners =
      s.listeners.filter (· ≠ (query, listener)) :=
    congrArg Registry.listeners (registry_unsubscribe listener vacuum)
  have hlistened : hasListener
      { s with listeners := s.listeners.filter (· ≠ (query, listener)) } query = true := by
    rw [hasListener_iff, hleft] at listened
    exact hasListener_iff.mpr listened
  unfold unsubscribe
  rw [if_pos hlistened]
  rfl

theorem registry_refetch : (s.refetch query).1.registry = s.registry := by
  unfold refetch
  split
  · rfl
  split
  · rfl
  split
  · exact registry_modifyQuery _
  · exact registry_fetchNow

theorem registry_landed {request : Request} {answer : Except Failure (QueryData × Fields)} :
    (s.landed setup request answer).registry = s.registry := registry_modifyQuery _

theorem registry_complete {request : Request} {answer : Except Failure (QueryData × Fields)} :
    (s.complete setup request answer).1.registry = s.registry := by
  by_cases hcurrent : s.isCurrent request = true
  · rcases complete_eq hcurrent with hnone | ⟨again, next, hbegin, hsome⟩
    · rw [hnone]
      exact registry_landed
    · rw [hsome]
      exact (registry_of_beginFetch? hbegin).trans registry_landed
  · rw [complete, if_neg hcurrent]

theorem registry_apply (name : String) (changes : List Change) :
    (s.apply setup name changes).1.registry = s.registry := by
  unfold apply
  dsimp only
  split <;> rfl

theorem refetch_mem_apply {name : String} {changes : List Change}
    (admitted : 0 < ((s.service name).mergeAll setup.conventions changes).admitted)
    (refetches : query ∈
      ((s.service name).mergeAll setup.conventions changes).service.refetching)
    (listened : s.hasListener query = true) : .refetch query ∈ (s.apply setup name changes).2 := by
  unfold apply
  dsimp only
  rw [if_neg (Nat.ne_of_gt admitted)]
  exact List.mem_append_right _ (List.mem_map_of_mem (List.mem_filter.mpr ⟨refetches, listened⟩))

theorem registry_emit (now : Nat) (event : Event) :
    (s.emit setup now event).1.registry = s.registry := by
  unfold emit
  split <;> rfl

end Store

namespace World

variable {setup : Setup} {w w' : World} {a : Act} {signal : Option Signal}

/-- What comes of an act: its transition is made, and the work it leaves is done first, once
the outside has given back the control that it is given with a signal. -/
theorem agenda_of_act (h : w.act? setup a = some (w', signal)) :
    w'.store = (w.transition setup a).1 ∧ signal = w.signal setup a ∧
      w'.agenda = signal.toList.flatMap Signal.given ++ (w.transition setup a).2.map .work ++
        w.rest a := by
  cases a with
  | materialize | subscribe | unsubscribe | refetch | emit | flush | mutated | watch | unwatch
  | tick =>
    obtain ⟨-, h⟩ := Option.ite_none_right_eq_some.mp h
    cases h
    exact ⟨rfl, rfl, rfl⟩
  | answered query epoch answer =>
    simp only [act?] at h
    split at h
    · next request hfind =>
      obtain ⟨-, h⟩ := Option.ite_none_right_eq_some.mp h
      cases h
      simp only [transition, hfind]
      exact ⟨rfl, rfl, rfl⟩
    · cases h
  | timedOut window =>
    simp only [act?] at h
    split at h
    · obtain ⟨-, h⟩ := Option.ite_none_right_eq_some.mp h
      cases h
      exact ⟨rfl, rfl, rfl⟩
    · cases h
  | goOn =>
    simp only [act?] at h
    split at h
    · next job others hagenda =>
      cases h
      simp only [transition, World.signal, World.rest, hagenda, List.tail_cons]
      generalize (w.store.run setup job).2.2 = signal
      cases signal with
      | none => exact ⟨rfl, trivial, rfl⟩
      | some signal => cases signal <;> exact ⟨rfl, trivial, rfl⟩
    · cases h
  | giveBack =>
    simp only [act?] at h
    split at h
    · next others hagenda =>
      cases h
      exact ⟨rfl, rfl, by simp [transition, World.rest, hagenda]⟩
    · cases h

theorem transition_of_act (h : w.act? setup a = some (w', signal)) :
    w'.store = (w.transition setup a).1 ∧ signal = w.signal setup a ∧
      ∃ outside, (∀ turn ∈ outside, turn = Turn.outside) ∧
        w'.agenda = outside ++ (w.transition setup a).2.map .work ++ w.rest a := by
  obtain ⟨hstore, hsignal, hagenda⟩ := agenda_of_act h
  refine ⟨hstore, hsignal, _, fun turn hturn => ?_, hagenda⟩
  obtain ⟨signal, -, hgiven⟩ := List.mem_flatMap.mp hturn
  cases signal with
  | call | bind => exact List.mem_singleton.mp hgiven
  | fetch | timer | unbind => cases hgiven

theorem signal_goOn {job : Work} {others : List Turn} (agenda : w.agenda = .work job :: others) :
    w.signal setup .goOn = (w.store.run setup job).2.2 := by
  unfold World.signal
  rw [agenda]

theorem signal_eq_none (h : a ≠ .goOn) : w.signal setup a = none := by
  cases a with
  | goOn => exact absurd rfl h
  | materialize | subscribe | unsubscribe | refetch | watch | unwatch | emit | flush | mutated
  | answered | timedOut | tick | giveBack => rfl

theorem mem_rest (h : w.act? setup a = some (w', signal)) {job : Work}
    (mem : .work job ∈ w.agenda) :
    .work job ∈ w.rest a ∨ a = .goOn ∧ ∃ rest, w.agenda = .work job :: rest := by
  cases a with
  | goOn =>
    cases hagenda : w.agenda with
    | nil =>
      rw [hagenda] at mem
      cases mem
    | cons turn rest =>
      rw [hagenda] at mem
      rcases List.mem_cons.mp mem with rfl | mem
      · exact Or.inr ⟨rfl, rest, rfl⟩
      · exact Or.inl (by rw [World.rest, hagenda]; exact mem)
  | giveBack =>
    simp only [act?] at h
    split at h
    · next rest hagenda =>
      rw [hagenda] at mem
      rcases List.mem_cons.mp mem with hturn | mem
      · cases hturn
      · exact Or.inl (by rw [World.rest, hagenda]; exact mem)
    · cases h
  | materialize | subscribe | unsubscribe | refetch | watch | unwatch | emit | flush | mutated
  | answered | timedOut | tick => exact Or.inl mem

end World

theorem Happening.Occurs.lives_on {setup : Setup} {h : Happening} {query : QueryId} {p : Query}
    (occurs : h.Occurs setup) (before : h.before.store.query? query = some p)
    (listened : h.after.store.hasListener query = true) :
    ∃ q, h.after.store.query? query = some q ∧ q.life = p.life := by
  obtain ⟨own, hcauses, hsteps, -⟩ := occurs.exists_own
  obtain ⟨name, hp⟩ := occurs.lives.query?_eq_some.mp (World.query?_cache.trans before)
  by_cases hends : own = some (.vacuumed query)
  · obtain ⟨listener, vacuum, hact⟩ := hcauses _ hends
    obtain ⟨hstore, -⟩ := World.transition_of_act occurs.act
    rw [hact, World.transition] at hstore
    rw [hstore] at listened ⊢
    exact ⟨p, (Store.query?_unsubscribe_of_listened listened query).trans before, rfl⟩
  · have hstays : .vacuumed query ∉ h.before.reaching h.act ++ own.toList := by
      intro hmem
      rcases List.mem_append.mp hmem with hmem | hmem
      · exact occurs.not_isInner_of_mem_reaching hmem trivial
      · exact hends (Option.mem_toList.mp hmem)
    obtain ⟨q, hq, hlife⟩ := hsteps.life_of_not_vacuumed occurs.lives hstays hp
    exact ⟨q, World.query?_cache.symm.trans (occurs.lives_after.query?_eq_some.mpr ⟨name, hq⟩),
      hlife⟩

end LiveQuery
