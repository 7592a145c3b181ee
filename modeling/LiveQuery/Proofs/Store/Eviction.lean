import LiveQuery.Proofs.Cache.Entities
import LiveQuery.Proofs.Store.Delivery

/-!
# What transitions evict

An answer to a fetch, a query that is given up and a change that is applied all follow one
rule, wherever a run has led: of the entities that were there, or that the transition has
written, exactly those are gone that it removes or releases (`Run.evicts_exactly`). And an
answer for one query, or its end, leaves all other queries and their memberships alone.
-/

namespace LiveQuery

namespace Service

variable {s s' s'' : Service} {query : QueryId}

theorem AltersOnly.refl (query : QueryId) (s : Service) : AltersOnly query s s :=
  fun _ _ => ⟨rfl, fun _ => Iff.rfl⟩

theorem AltersOnly.trans (h : AltersOnly query s s') (h' : AltersOnly query s' s'') :
    AltersOnly query s s'' := by
  intro x hx
  obtain ⟨hquery, hheld⟩ := h x hx
  obtain ⟨hquery', hheld'⟩ := h' x hx
  exact ⟨hquery'.trans hquery, fun id => (hheld' id).trans (hheld id)⟩

theorem Alters.altersOnly {f : Query → Query} (h : s.Alters query f s')
    (index : s'.index = s.index) : AltersOnly query s s' :=
  fun x hx => ⟨by rw [h x, if_neg hx], fun _ => by rw [index]⟩

end Service

namespace Store

/-- Has a transition evicted in every service exactly what it should, given what it has
written there? -/
def EvictsExactly (setup : Setup) (s : Store) (writes : String → List Write) (s' : Store) :
    Prop :=
  ∀ name, (s.service name).EvictsExactly setup.conventions (writes name) (s'.service name)

/-- Are all queries but one as they were, with their memberships, in every service? -/
def AltersOnly (query : QueryId) (s s' : Store) : Prop :=
  ∀ name, Service.AltersOnly query (s.service name) (s'.service name)

variable {setup : Setup} {s : Store} {rest : Multiset Request} {request : Request}
variable {answer : Except Failure (QueryData × Fields)} {query : QueryId} {name : String}

/-- The service of a fetch once it has been answered for a life that goes on. -/
def landedService (setup : Setup) (s : Store) (request : Request)
    (answer : Except Failure (QueryData × Fields)) : Service :=
  ((s.service request.service).land setup.conventions request.query answer).mark
    request.query false

/-- What an answer does to the services: nothing if its life has ended; otherwise it lands in
one of them, where the next fetch may begin at once. -/
theorem service_complete (setup : Setup) (answer : Except Failure (QueryData × Fields))
    (lives : (s.cache rest).Lives) :
    (¬(s.cache rest).IsCurrent request ∧
        (s.complete setup request answer).1.service = s.service) ∨
      (s.cache rest).IsCurrent request ∧ ∃ s',
        (s' = s.landedService setup request answer ∨
          s' = (s.landedService setup request answer).fetching request.query) ∧
        (s.complete setup request answer).1.service =
          Function.update s.service request.service s' := by
  by_cases hcurrent : s.isCurrent request = true
  · have hc : (s.cache rest).IsCurrent request := isCurrent_iff.mp hcurrent
    refine Or.inr ⟨hc, ?_⟩
    obtain ⟨q, hq, -⟩ := hc
    have hhome : s.homes.get? request.query = some request.service := lives.home hq
    have hcache : (s.landed setup request answer).cache 0 = (s.cache 0).set request.service
        (s.landedService setup request answer) := cache_landed hhome
    have hlanded : (s.landed setup request answer).service =
        Function.update s.service request.service (s.landedService setup request answer) :=
      congrArg Cache.service hcache
    rcases complete_eq hcurrent with hnone | ⟨again, next, hbegin, hsome⟩
    · exact ⟨_, Or.inl rfl, by rw [hnone]; exact hlanded⟩
    · obtain ⟨home, p, hhome', -, -, -, rfl⟩ := beginFetch?_eq_some hbegin
      have hhomes : (s.landed setup request answer).homes.get? = s.homes.get? :=
        congrArg Cache.home? hcache
      rw [hhomes] at hhome'
      obtain rfl : request.service = home := Option.some.inj (hhome.symm.trans hhome')
      refine ⟨_, Or.inr rfl, ?_⟩
      rw [hsome]
      refine (service_setService _ _).trans ?_
      rw [hlanded, Function.update_self, Function.update_idem]
  · refine Or.inl ⟨fun h => hcurrent (isCurrent_iff.mpr h), ?_⟩
    unfold complete
    rw [if_neg hcurrent]

theorem service_unsubscribe (setup : Setup) (query : QueryId) (listener : ListenerId)
    (vacuum : Option Bool) :
    (s.unsubscribe setup query listener vacuum).1.service = s.service ∨
      ∃ home s', (s.service home).vacuum? setup.conventions query = some s' ∧
        (s.unsubscribe setup query listener vacuum).1.service =
          Function.update s.service home s' := by
  unfold unsubscribe
  dsimp only
  split
  · exact Or.inl rfl
  split
  · exact Or.inl rfl
  next home _ =>
  split
  · split
    · next s' hvacuum => exact Or.inr ⟨home, s', hvacuum, service_setService _ _⟩
    · exact Or.inl rfl
  · exact Or.inl rfl

theorem evolves_complete (lives : (s.cache rest).Lives) (asked : request ∈ rest)
    (name : String) :
    (s.service name).Evolves setup.conventions
      ((s.service name).landing setup.conventions request.query request.epoch answer)
      ((s.complete setup request answer).1.service name) := by
  have hgone : (∀ q, (s.service name).queries.get? request.query = some q →
      q.epoch ≠ request.epoch) → (s.service name).Evolves setup.conventions
        ((s.service name).landing setup.conventions request.query request.epoch answer)
        (s.service name) := by
    intro hnot
    rw [Service.landing_eq_nil hnot]
    exact Service.evolves_refl
  rcases service_complete setup answer lives with
    ⟨hended, hsame⟩ | ⟨⟨q, hq, hepoch⟩, s', hs', hservice⟩
  · rw [hsame]
    refine hgone fun p hp hp' => hended ?_
    exact lives.isCurrent asked hp hp'
  rw [hservice, Function.update_apply]
  split
  · next hname =>
    subst hname
    have hlanded : (s.service request.service).Evolves setup.conventions _
        (s.landedService setup request answer) :=
      (Service.evolves_land hq hepoch).agrees Service.agrees_mark
    rcases hs' with rfl | rfl
    · exact hlanded
    · exact hlanded.agrees Service.agrees_fetching
  · next hname =>
    exact hgone fun p hp hp' => hname (lives.service_eq asked hp hp').symm

theorem altersOnly_complete (lives : (s.cache rest).Lives) :
    s.AltersOnly request.query (s.complete setup request answer).1 := by
  intro name
  rcases service_complete setup answer lives with ⟨-, hsame⟩ | ⟨-, s', hs', hservice⟩
  · rw [hsame]
    exact .refl _ _
  rw [hservice, Function.update_apply]
  split
  · next hname =>
    subst hname
    have hlanded : Service.AltersOnly request.query (s.service request.service)
        (s.landedService setup request answer) :=
      (Service.altersOnly_land answer).trans (Service.alters_mark.altersOnly rfl)
    rcases hs' with rfl | rfl
    · exact hlanded
    · exact hlanded.trans (Service.alters_fetching.altersOnly rfl)
  · exact .refl _ _

end Store

variable {setup : Setup} {history : List Happening} {w : World}

/-- Of an answer to an outstanding fetch, of a query that loses a listener, and of a change
that is applied after whatever others, each evicts exactly what it should. The first two
concern no query but their own. -/
theorem Run.evicts_exactly (run : Run setup history w) :
    (∀ request ∈ w.outstanding, ∀ answer,
      w.store.EvictsExactly setup
        (fun name => (w.store.service name).landing setup.conventions request.query
          request.epoch answer)
        (w.store.complete setup request answer).1 ∧
      w.store.AltersOnly request.query (w.store.complete setup request answer).1) ∧
    (∀ query listener vacuum,
      w.store.EvictsExactly setup (fun _ => [])
        (w.store.unsubscribe setup query listener vacuum).1 ∧
      w.store.AltersOnly query (w.store.unsubscribe setup query listener vacuum).1) ∧
    ∀ service earlier change,
      (w.store.apply setup service earlier).1.EvictsExactly setup
        (fun name => if name = service then
          ((w.store.apply setup service earlier).1.service name).merging setup.conventions
            [change] else [])
        ((w.store.apply setup service earlier).1.apply setup service [change]).1 := by
  have hlives : (w.store.cache ↑w.outstanding).Lives := run.lives
  refine ⟨fun request hmem answer => ?_, fun query listener vacuum => ?_,
    fun service earlier change name => ?_⟩
  · refine ⟨fun name => ?_, Store.altersOnly_complete hlives⟩
    refine (Store.evolves_complete hlives hmem name).evictsExactly ?_
    intro write hwrite other _ hnone
    have hstores := Service.isSome_of_mem_landing hwrite
    rw [hnone] at hstores
    cases hstores
  · rcases w.store.service_unsubscribe setup query listener vacuum with
      hsame | ⟨home, s', hvacuum, hservice⟩
    · refine ⟨fun name => ?_, fun name => ?_⟩
      · rw [hsame]
        exact Service.evolves_refl.evictsExactly (List.forall_mem_nil _)
      · rw [hsame]
        exact .refl _ _
    · refine ⟨fun name => ?_, fun name => ?_⟩
      · refine Service.Evolves.evictsExactly ?_ (List.forall_mem_nil _)
        rw [hservice, Function.update_apply]
        split
        · next hname => subst hname; exact Service.evolves_vacuum hvacuum
        · exact Service.evolves_refl
      · rw [hservice, Function.update_apply]
        split
        · next hname => subst hname; exact Service.altersOnly_vacuum hvacuum
        · exact .refl _ _
  · have happly (s : Store) : (s.apply setup service [change]).1.service name =
        Function.update s.service service
          ((s.service service).mergeAll setup.conventions [change]).service name :=
      congrFun (Store.service_apply [change]) name
    have hafter := happly (w.store.apply setup service earlier).1
    by_cases hname : name = service
    · subst hname
      rw [Function.update_self] at hafter
      have hmirror : ((w.store.apply setup name earlier).1.service name).Mirror
          setup.conventions := by
        rw [Store.service_apply, Function.update_self]
        exact (run.mirror name).mergeAll earlier
      simp only [if_true, hafter]
      exact hmirror.evictsExactly_mergeAll change
    · rw [Function.update_of_ne hname] at hafter
      simp only [if_neg hname, hafter]
      exact Service.evolves_refl.evictsExactly (List.forall_mem_nil _)

/-- When the ideas are given up, the first note is evicted, since nothing else shows it. -/
theorem Notes.ideas_released :
    (∃ item, (opened.store.service "notes").entities.get? (.int 1) = some item) ∧
      (opened.store.service "notes").Releases Conventions.standard
        ((opened.store.unsubscribe {} ideas.id ⟨1⟩ (some true)).1.service "notes")
        (.int 1) := by
  obtain ⟨history, hrun⟩ := run_opened
  have hthere : ∃ item, (opened.store.service "notes").entities.get? (.int 1) = some item :=
    Option.isSome_iff_exists.mp (by decide +kernel)
  have hgone : ((opened.store.unsubscribe {} ideas.id ⟨1⟩ (some true)).1.service
      "notes").entities.get? (.int 1) = none := by decide +kernel
  obtain ⟨hevicts, -⟩ := (Run.evicts_exactly hrun).2.1 ideas.id ⟨1⟩ (some true)
  refine ⟨hthere, ((hevicts "notes" (.int 1) (Or.inl hthere)).mp hgone).resolve_left ?_⟩
  rintro ⟨write, hwrite, -⟩
  cases hwrite

end LiveQuery
