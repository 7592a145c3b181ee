import LiveQuery.Proofs.Store.Fetches
import LiveQuery.Proofs.Store.Transitions

/-!
# What transitions tell

A transition of the store that makes a difference to what is shown is numbered, and plans a call
of every listener concerned. `Store.Tells` says what is promised of such a plan: the calls carry
the number of the transition and show the store as it is right after it, and no listener of a
query whose state has changed is forgotten. Every act keeps the promise
(`Happening.Occurs.tells`), and the store hands out planned calls one by one, passing over those
that tell of an earlier transition than their listener has seen (`Happening.Occurs.registry_eq`).
-/

namespace LiveQuery

/-- A call that is planned for a listener: the transition it tells of, and what it shows. -/
@[ext]
structure Notice where
  transition : Nat
  listener : ListenerId
  payload : Payload

def Work.notice? : Work → Option Notice
  | .call transition listener payload => some ⟨transition, listener, payload⟩
  | _ => none

/-- A call as work of the store. -/
def Notice.work (n : Notice) : Work := .call n.transition n.listener n.payload

def Turn.notice? : Turn → Option Notice
  | .work job => job.notice?
  | .outside => none

/-- The calls that have been planned and not come to their turn yet. -/
def World.due (w : World) : List Notice := w.agenda.filterMap Turn.notice?

namespace Happening

def notices (h : Happening) : List Notice := h.planned.filterMap Turn.notice?

def handed? (h : Happening) : Option Notice :=
  match h.signal, h.before.agenda with
  | some (.call listener payload), .work (.call transition _ _) :: _ =>
    some ⟨transition, listener, payload⟩
  | _, _ => none

end Happening

/-! ## Merging -/

namespace Service

variable {conv : Conventions} {s : Service} {id : ItemId} {x : QueryId} {change : Change}

theorem get?_mergeChange_of_not_affected
    (h : x ∉ s.affected id change [.leaves, .stays, .joins]) :
    (s.mergeChange conv id change).queries.get? x = s.queries.get? x := by
  rw [get?_queries_mergeChange]
  cases hq : s.queries.get? x with
  | none => rfl
  | some q =>
    have hnone : s.effectOn id change x q = .unaffected := by
      by_contra hsome
      refine h (mem_affected.mpr ⟨q, hq, ?_⟩)
      cases he : s.effectOn id change x q with
      | unaffected => exact absurd he hsome
      | leaves | stays | joins => simp
    rw [Option.map_some, hnone]
    rfl

theorem foldl_step_spec (changes : List Change) (m : Merged) :
    (∀ x, x ∉ (changes.foldl (Merged.step conv) m).touched → x ∉ m.touched ∧
      (changes.foldl (Merged.step conv) m).service.queries.get? x = m.service.queries.get? x) ∧
      m.admitted ≤ (changes.foldl (Merged.step conv) m).admitted ∧
      ((changes.foldl (Merged.step conv) m).admitted = m.admitted →
        (changes.foldl (Merged.step conv) m).service = m.service) := by
  induction changes generalizing m with
  | nil => exact ⟨fun x hx => ⟨hx, rfl⟩, Nat.le_refl _, fun _ => rfl⟩
  | cons change changes ih =>
    rw [List.foldl_cons]
    cases ha : m.service.admits? conv change with
    | none =>
      rw [step_of_rejects ha]
      exact ih m
    | some id =>
      obtain ⟨hkept, hle, -⟩ := ih (m.step conv change)
      have hmore : (m.step conv change).admitted = m.admitted + 1 := by simp [Merged.step, ha]
      refine ⟨fun x hx => ?_, by omega, fun heq => by omega⟩
      obtain ⟨hout, hsame⟩ := hkept x hx
      simp only [Merged.step, ha, List.mem_append, List.mem_filter, not_or, not_and,
        decide_eq_true_eq, not_not] at hout
      refine ⟨hout.1, hsame.trans ?_⟩
      rw [step_of_admits ha]
      exact get?_mergeChange_of_not_affected fun hmem => hout.1 (hout.2 hmem)

theorem get?_mergeAll_of_not_touched {changes : List Change}
    (h : x ∉ (s.mergeAll conv changes).touched) :
    (s.mergeAll conv changes).service.queries.get? x = s.queries.get? x :=
  ((foldl_step_spec changes { service := s }).1 x h).2

theorem mergeAll_of_not_admitted {changes : List Change}
    (h : (s.mergeAll conv changes).admitted = 0) : (s.mergeAll conv changes).service = s :=
  (foldl_step_spec changes { service := s }).2.2 h

end Service

/-! ## Transitions -/

namespace Store

variable {setup : Setup} {s base : Store} {query x : QueryId} {touched : List QueryId}
variable {next : Store × List Work} {n : Notice}

/-- Does a payload show a listener the store as it is? -/
def Presents (s : Store) (listener : ListenerId) : Payload → Prop
  | .state state => ∃ query, (query, listener) ∈ s.listeners ∧ s.state? query = some state
  | .snapshot services => listener ∈ s.watchers ∧ services = s.services

/-- Does a transition tell what it changes? -/
structure Tells (s : Store) (next : Store × List Work) : Prop where
  numbered : next.1.transitions = s.transitions ∨ next.1.transitions = s.transitions + 1
  planned : ∀ n ∈ next.2.filterMap Work.notice?, next.1.transitions = s.transitions + 1 ∧
    n.transition = s.transitions + 1 ∧ next.1.Presents n.listener n.payload
  complete : ∀ query listener p q, s.state? query = some p → next.1.state? query = some q →
    p ≠ q → (query, listener) ∈ next.1.listeners →
    ⟨next.1.transitions, listener, .state q⟩ ∈ next.2.filterMap Work.notice?

/-- The calls of a transition that notifies: one for each listener of a query it touches, and
one for each listener of the whole store. -/
theorem mem_notices_notify :
    n ∈ (s.notify touched).2.filterMap Work.notice? ↔ n.transition = s.transitions + 1 ∧
      ((∃ query ∈ touched, (query, n.listener) ∈ s.listeners ∧ ∃ state,
          s.state? query = some state ∧ n.payload = .state state) ∨
        n.listener ∈ s.watchers ∧ n.payload = .snapshot s.services) := by
  obtain ⟨t, l, payload⟩ := n
  simp only [notify, List.filterMap_append, List.mem_append, List.mem_filterMap,
    List.mem_flatMap, List.mem_map]
  constructor
  · rintro (⟨job, ⟨query, htouched, hjob⟩, hn⟩ | ⟨job, ⟨l, hwatches, rfl⟩, hn⟩)
    · split at hjob
      · next q hq =>
        obtain ⟨l, hl, rfl⟩ := List.mem_map.mp hjob
        cases hn
        refine ⟨rfl, Or.inl ⟨query, htouched, by simpa [listenersOf] using hl, q.state, ?_, rfl⟩⟩
        rw [state?, hq]
        rfl
      · cases hjob
    · cases hn
      exact ⟨rfl, Or.inr ⟨hwatches, rfl⟩⟩
  · rintro ⟨rfl, ⟨query, htouched, hlistens, state, hstate, rfl⟩ | ⟨hwatches, rfl⟩⟩
    · obtain ⟨q, hq, rfl⟩ := Option.map_eq_some_iff.mp hstate
      refine Or.inl ⟨.call (s.transitions + 1) l (.state q.state), ⟨query, htouched, ?_⟩, rfl⟩
      rw [hq]
      exact List.mem_map_of_mem (by simpa [listenersOf] using hlistens)
    · exact Or.inr ⟨.call (s.transitions + 1) l (.snapshot s.services), ⟨l, hwatches, rfl⟩, rfl⟩

theorem tells_of_still (transitions : next.1.transitions = s.transitions)
    (silent : ∀ job ∈ next.2, job.notice? = none)
    (still : ∀ x, s.state? x = none ∨ next.1.state? x = s.state? x) : s.Tells next := by
  refine ⟨Or.inl transitions, ?_, ?_⟩
  · rw [List.filterMap_eq_nil_iff.mpr silent]
    exact List.forall_mem_nil _
  · intro query l p q hp hq hne
    rcases still query with hnone | hsame
    · rw [hnone] at hp
      cases hp
    · exact absurd (Option.some.inj (hp.symm.trans (hsame.symm.trans hq))) hne

theorem tells_refl {work : List Work} (silent : ∀ job ∈ work, job.notice? = none) :
    s.Tells (s, work) :=
  tells_of_still rfl silent fun _ => Or.inr rfl

theorem tells_notify {more : List Work} (transitions : base.transitions = s.transitions)
    (silent : ∀ job ∈ more, job.notice? = none)
    (covers : ∀ x, x ∉ touched → base.query? x = s.query? x ∨ base.query? x = none) :
    s.Tells ((base.notify touched).1, (base.notify touched).2 ++ more) := by
  have hwork : ((base.notify touched).2 ++ more).filterMap Work.notice? =
      (base.notify touched).2.filterMap Work.notice? := by
    rw [List.filterMap_append, List.filterMap_eq_nil_iff.mpr silent, List.append_nil]
  refine ⟨Or.inr (congrArg (· + 1) transitions), ?_, ?_⟩
  · intro n hn
    rw [hwork, mem_notices_notify, transitions] at hn
    refine ⟨congrArg (· + 1) transitions, hn.1, ?_⟩
    rcases hn.2 with ⟨query, -, hlistens, state, hstate, hpayload⟩ | ⟨hwatches, hpayload⟩
    · rw [hpayload]
      exact ⟨query, hlistens, hstate⟩
    · rw [hpayload]
      exact ⟨hwatches, rfl⟩
  · intro query l p q hp hq hne hlistens
    have hq : base.state? query = some q := hq
    rw [hwork, mem_notices_notify]
    refine ⟨rfl, Or.inl ⟨query, ?_, hlistens, q, hq, rfl⟩⟩
    by_contra hout
    rcases covers query hout with hsame | hgone
    · rw [state?, hsame] at hq
      exact hne (Option.some.inj (hp.symm.trans hq))
    · rw [state?, hgone] at hq
      cases hq

theorem tells_notify_of_covers (transitions : base.transitions = s.transitions)
    (covers : ∀ x, x ∉ touched → base.query? x = s.query? x ∨ base.query? x = none) :
    s.Tells (base.notify touched) := by
  have htells : s.Tells ((base.notify touched).1, (base.notify touched).2 ++ []) :=
    tells_notify transitions (List.forall_mem_nil _) covers
  rwa [List.append_nil] at htells

theorem Tells.of_eq (h : base.Tells next) (transitions : base.transitions = s.transitions)
    (states : ∀ x, base.query? x = s.query? x) : s.Tells next := by
  refine ⟨transitions ▸ h.numbered, transitions ▸ h.planned, fun query l p q hp => ?_⟩
  rw [state?, ← states] at hp
  exact h.complete query l p q hp

/-! ## The operations -/

theorem tells_materialize (ref : QueryRef) : s.Tells (s.materialize setup ref) := by
  have hsilent : ∀ job ∈ (s.materialize setup ref).2, job.notice? = none := by
    intro job hjob
    unfold materialize at hjob
    dsimp only at hjob
    split at hjob
    · cases hjob
    · rw [List.mem_singleton.mp hjob]
      rfl
  cases hnew : s.query? ref.id with
  | some q =>
    have hstill : (s.materialize setup ref).1 = s := by
      simp only [materialize, hnew, Option.isSome_some, if_true]
    exact tells_of_still (by rw [hstill]) hsilent fun _ => Or.inr (by rw [hstill])
  | none =>
    have htransitions : (s.materialize setup ref).1.transitions = s.transitions := by
      unfold materialize
      dsimp only
      split <;> rfl
    refine tells_of_still htransitions hsilent fun x => ?_
    by_cases hx : ref.id = x
    · subst hx
      exact Or.inl (by rw [state?, hnew]; rfl)
    · have hkept : (s.materialize setup ref).1.query? x = s.query? x := by
        rw [query?_eq, query?_eq]
        simp only [materialize, hnew, Option.isSome_none, Bool.false_eq_true, if_false]
        rw [Table.get?_insert, if_neg hx]
        cases s.homes.get? x with
        | none => rfl
        | some home =>
          show ((s.setService _ _).service home).queries.get? x = _
          rw [service_setService, Function.update_apply]
          split
          · next hhome =>
            rw [Table.get?_insert, if_neg hx, hhome]
            rfl
          · rfl
      exact Or.inr (congrArg (Option.map Query.state) hkept)

theorem tells_fetchNow : s.Tells (s.fetchNow query) := by
  unfold fetchNow
  split
  · next request next hbegin =>
    obtain ⟨home, q, hhome, -, -, -, rfl⟩ := beginFetch?_eq_some hbegin
    refine tells_notify rfl (by simp [Work.notice?]) fun x hx => Or.inl ?_
    rw [query?_alters hhome Service.alters_fetching (cache_setService _ _),
      if_neg fun h => hx (List.mem_singleton.mpr h)]
  · exact tells_refl (List.forall_mem_nil _)

theorem tells_subscribe : s.Tells (s.subscribe query).2 := by
  unfold subscribe
  dsimp only
  split
  · exact tells_fetchNow.of_eq rfl fun _ => rfl
  · exact (tells_refl (List.forall_mem_nil _)).of_eq rfl fun _ => rfl

theorem tells_unsubscribe (listener : ListenerId) (vacuum : Option Bool) :
    s.Tells (s.unsubscribe setup query listener vacuum) := by
  have hstill : s.Tells
      ({ s with listeners := s.listeners.filter (· ≠ (query, listener)) }, []) :=
    (tells_refl (List.forall_mem_nil _)).of_eq rfl fun _ => rfl
  unfold unsubscribe
  dsimp only
  split
  · exact hstill
  split
  · exact hstill
  next home hhome =>
  split
  · split
    · next service hvacuum =>
      refine tells_notify_of_covers rfl fun x _ => ?_
      have hservice : (s.service home).vacuum? setup.conventions query = some service := hvacuum
      by_cases hx : x = query
      · refine Or.inr ?_
        rw [query?_eq, hx]
        show ((s.homes.erase query).get? query).bind _ = none
        rw [Table.get?_erase_self, Option.bind_none]
      · refine Or.inl ?_
        rw [query?_eq, query?_eq]
        show ((s.homes.erase query).get? x).bind _ = _
        rw [Table.get?_erase, if_neg (Ne.symm hx)]
        cases s.homes.get? x with
        | none => rfl
        | some other =>
          show ((s.setService home service).service other).queries.get? x = _
          rw [service_setService, Function.update_apply]
          split
          · next hother =>
            rw [hother, Service.get?_queries_vacuum hservice, if_neg (Ne.symm hx)]
            rfl
          · rfl
    · exact hstill
  · exact hstill

theorem tells_refetch : s.Tells (s.refetch query) := by
  unfold refetch
  split
  · exact tells_refl (List.forall_mem_nil _)
  next q hfound =>
  split
  · exact tells_refl (List.forall_mem_nil _)
  split
  · obtain ⟨home, hhome, -⟩ := exists_home hfound
    refine tells_of_still ?_ (List.forall_mem_nil _) fun x => Or.inr ?_
    · unfold modifyQuery
      split <;> rfl
    · have hmarked : (s.modifyQuery query (Query.marked true)).query? x =
          if x = query then (s.query? x).map (Query.marked true) else s.query? x :=
        query?_alters hhome Service.alters_mark (cache_mark hhome)
      show ((s.modifyQuery query (Query.marked true)).query? x).map Query.state = _
      rw [hmarked]
      split
      · rw [Option.map_map]
        rfl
      · rfl
  · exact tells_fetchNow

theorem tells_complete {request : Request} {answer : Except Failure (QueryData × Fields)}
    (lives : s.isCurrent request = true → s.homes.get? request.query = some request.service) :
    s.Tells (s.complete setup request answer) := by
  by_cases hcurrent : s.isCurrent request = true
  · have hhome := lives hcurrent
    have hlanded : ∀ x, x ∉ [request.query] →
        (s.landed setup request answer).query? x = s.query? x := fun x hx => by
      rw [query?_landed_eq hhome, if_neg fun h => hx (List.mem_singleton.mpr h)]
    have htransitions : (s.landed setup request answer).transitions = s.transitions := by
      unfold landed modifyQuery
      split <;> rfl
    rcases @complete_eq setup s request answer hcurrent with
      hnone | ⟨again, next, hbegin, hsome⟩
    · rw [hnone]
      exact tells_notify_of_covers htransitions fun x hx => Or.inl (hlanded x hx)
    · rw [hsome]
      obtain ⟨home, q, hnext, -, -, -, rfl⟩ := beginFetch?_eq_some hbegin
      refine tells_notify htransitions (by simp [Work.notice?]) fun x hx => Or.inl ?_
      rw [query?_alters hnext Service.alters_fetching (cache_setService _ _),
        if_neg fun h => hx (List.mem_singleton.mpr h), hlanded x hx]
  · rw [complete, if_neg hcurrent]
    exact tells_refl (List.forall_mem_nil _)

theorem tells_apply (name : String) (changes : List Change) :
    s.Tells (s.apply setup name changes) := by
  have hquery : ∀ x, x ∉ ((s.service name).mergeAll setup.conventions changes).touched →
      (s.setService name ((s.service name).mergeAll setup.conventions changes).service).query? x =
        s.query? x := by
    intro x hx
    rw [query?_eq, query?_eq]
    show (s.homes.get? x).bind _ = _
    cases s.homes.get? x with
    | none => rfl
    | some home =>
      rw [Option.bind_some, Option.bind_some, service_setService, Function.update_apply]
      split
      · next hhome => rw [hhome, Service.get?_mergeAll_of_not_touched hx]
      · rfl
  unfold apply
  dsimp only
  split
  · next hnone =>
    refine tells_of_still rfl (List.forall_mem_nil _) fun x => Or.inr ?_
    refine congrArg (Option.map Query.state) ?_
    rw [Service.mergeAll_of_not_admitted hnone, query?_eq, query?_eq, service_setService,
      Function.update_eq_self]
    rfl
  · refine tells_notify rfl ?_ fun x hx => Or.inl (hquery x hx)
    intro job hjob
    obtain ⟨x, -, rfl⟩ := List.mem_map.mp hjob
    rfl

theorem silent_applyEvents (events : List Event) :
    ∀ job ∈ applyEvents events, job.notice? = none := by
  intro job hjob
  obtain ⟨group, -, rfl⟩ := List.mem_map.mp hjob
  rfl

theorem tells_emit (now : Nat) (event : Event) : s.Tells (s.emit setup now event) := by
  unfold emit
  dsimp only
  split
  · exact tells_refl (by simp [Work.notice?])
  · exact (tells_refl (by simp [Work.notice?])).of_eq rfl fun _ => rfl

theorem tells_run (job : Work) : s.Tells ((s.run setup job).1, (s.run setup job).2.1) := by
  cases job with
  | call transition listener payload =>
    unfold run
    dsimp only
    split
    · exact tells_of_still rfl (List.forall_mem_nil _) fun _ => Or.inr rfl
    · exact tells_refl (List.forall_mem_nil _)
  | launch | startTimer => exact tells_refl (List.forall_mem_nil _)
  | refetch query => exact tells_refetch
  | apply name changes => exact tells_apply name changes
  | bind name =>
    unfold run
    dsimp only
    split
    · exact tells_refl (List.forall_mem_nil _)
    · exact tells_refl (by simp [Work.notice?])
  | keepBinding name =>
    unfold run
    dsimp only
    split
    · exact tells_refl (List.forall_mem_nil _)
    · exact tells_of_still rfl (List.forall_mem_nil _) fun _ => Or.inr rfl

end Store

/-! ## Acts -/

theorem World.tells {setup : Setup} {w : World} (lives : w.cache.Lives) (a : Act) :
    w.store.Tells (w.transition setup a) := by
  have hrefl : w.store.Tells (w.store, []) := Store.tells_refl (List.forall_mem_nil _)
  cases a with
  | materialize ref => exact Store.tells_materialize ref
  | subscribe => exact Store.tells_subscribe
  | unsubscribe query listener vacuum => exact Store.tells_unsubscribe listener vacuum
  | refetch => exact Store.tells_refetch
  | watch | unwatch => exact (Store.tells_refl (List.forall_mem_nil _)).of_eq rfl fun _ => rfl
  | emit event => exact Store.tells_emit _ event
  | flush => exact (Store.tells_refl (Store.silent_applyEvents _)).of_eq rfl fun _ => rfl
  | mutated => exact Store.tells_refl (by simp [Work.notice?])
  | answered query epoch answer =>
    unfold transition
    dsimp only
    split
    · next request hfind =>
      refine Store.tells_complete fun hcurrent => ?_
      obtain ⟨q, hq, -⟩ := (@Store.isCurrent_iff w.store w.outstanding request).mp hcurrent
      exact lives.home hq
    · exact hrefl
  | timedOut => exact (Store.tells_refl (Store.silent_applyEvents _)).of_eq rfl fun _ => rfl
  | goOn =>
    unfold transition
    dsimp only
    split
    · exact Store.tells_run _
    · exact hrefl
  | tick | giveBack => exact hrefl

namespace Happening.Occurs

variable {setup : Setup} {h : Happening} {n : Notice}

theorem notices_eq (occurs : h.Occurs setup) :
    h.notices = (h.before.transition setup h.act).2.filterMap Work.notice? ∧
      h.after.due = h.notices ++ (h.before.rest h.act).filterMap Turn.notice? := by
  obtain ⟨-, -, outside, houtside, hagenda⟩ := World.transition_of_act occurs.act
  have hnone : outside.filterMap Turn.notice? = [] :=
    List.filterMap_eq_nil_iff.mpr fun turn hturn => by rw [houtside turn hturn]; rfl
  have hplanned : h.notices = (h.before.transition setup h.act).2.filterMap Work.notice? := by
    rw [notices, planned_eq hagenda, List.filterMap_append, hnone, List.filterMap_map]
    rfl
  refine ⟨hplanned, ?_⟩
  rw [notices, planned_eq hagenda, World.due, hagenda, List.filterMap_append]

/-- An act tells what it changes. -/
theorem tells (occurs : h.Occurs setup) : ∃ work,
    h.before.store.Tells (h.after.store, work) ∧ h.notices = work.filterMap Work.notice? := by
  obtain ⟨hstore, -⟩ := World.transition_of_act occurs.act
  refine ⟨_, ?_, occurs.notices_eq.1⟩
  rw [hstore]
  exact World.tells occurs.lives h.act

theorem transitions_le (occurs : h.Occurs setup) :
    h.before.store.transitions ≤ h.after.store.transitions := by
  obtain ⟨work, htells, -⟩ := occurs.tells
  have hnumbered : h.after.store.transitions = h.before.store.transitions ∨
      h.after.store.transitions = h.before.store.transitions + 1 := htells.numbered
  omega

theorem transition_of_notice (occurs : h.Occurs setup) (planned : n ∈ h.notices) :
    n.transition = h.before.store.transitions + 1 ∧
      h.after.store.transitions = h.before.store.transitions + 1 ∧
      h.after.store.Presents n.listener n.payload := by
  obtain ⟨work, htells, hwork⟩ := occurs.tells
  obtain ⟨hnumber, htransition, hpresents⟩ := htells.planned n (hwork ▸ planned)
  exact ⟨htransition, hnumber, hpresents⟩

end Happening.Occurs

end LiveQuery
