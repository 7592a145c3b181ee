import LiveQuery.Proofs.Store.Histories
import LiveQuery.Proofs.Store.Notices

/-!
# Who listens, and what they have seen

Listeners come and go as they please, and each notes the transition of a call that it is handed
(`Happening.Occurs.registry_eq`). A call is made when its turn has come, if its listener has not seen
a later transition. So nothing that has been seen or is to be told is later than the last transition
of the store (`Run.due_le`).
-/

namespace LiveQuery

namespace Happening

/-- The call that a given listener is handed. -/
def handedTo? (h : Happening) (l : ListenerId) : Option Notice :=
  h.handed?.filter fun n => n.listener = l

end Happening

theorem Happening.handedTo?_eq_some {h : Happening} {l : ListenerId} {n : Notice} :
    h.handedTo? l = some n ↔ h.handed? = some n ∧ n.listener = l := by
  rw [handedTo?, Option.filter_eq_some_iff, decide_eq_true_eq]

def received (history : List Happening) (l : ListenerId) : List Notice :=
  history.filterMap (·.handedTo? l)

/-- The latest transition that a listener has been told of. -/
def Store.seenBy (s : Store) (l : ListenerId) : Nat := (s.seen.get? l).getD 0

/-! ## Who listens -/

namespace Registry

/-- The registry after an act, as far as it does not depend on who is called. -/
def after (a : Registry) : Act → Registry
  | .subscribe query => { a with
      listeners := a.listeners ++ [(query, ⟨a.registered + 1⟩)]
      registered := a.registered + 1 }
  | .unsubscribe query l _ => { a with listeners := a.listeners.filter (· ≠ (query, l)) }
  | .watch => { a with
      watchers := a.watchers ++ [⟨a.registered + 1⟩]
      registered := a.registered + 1 }
  | .unwatch l => { a with watchers := a.watchers.filter (· ≠ l) }
  | _ => a

def hearing (a : Registry) : Option Notice → Registry
  | some n => { a with seen := a.seen.insert n.listener n.transition }
  | none => a

variable {a : Registry} {act : Act} {query : QueryId} {l : ListenerId} {n? : Option Notice}

@[simp] theorem listeners_hearing : (a.hearing n?).listeners = a.listeners := by
  cases n? <;> rfl

@[simp] theorem watchers_hearing : (a.hearing n?).watchers = a.watchers := by
  cases n? <;> rfl

@[simp] theorem registered_hearing : (a.hearing n?).registered = a.registered := by
  cases n? <;> rfl

@[simp] theorem seen_after : (a.after act).seen = a.seen := by
  cases act <;> rfl

theorem mem_listeners_after (h : (query, l) ∈ (a.after act).listeners) :
    (query, l) ∈ a.listeners ∨ act = .subscribe query ∧ l = ⟨a.registered + 1⟩ := by
  cases act with
  | subscribe x =>
    rcases List.mem_append.mp h with h | h
    · exact Or.inl h
    · cases List.mem_singleton.mp h
      exact Or.inr ⟨rfl, rfl⟩
  | unsubscribe => exact Or.inl (List.mem_of_mem_filter h)
  | materialize | refetch | watch | unwatch | emit | flush | mutated | answered | timedOut | tick
  | goOn | giveBack => exact Or.inl h

theorem mem_watchers_after (h : l ∈ (a.after act).watchers) :
    l ∈ a.watchers ∨ act = .watch ∧ l = ⟨a.registered + 1⟩ := by
  cases act with
  | watch =>
    rcases List.mem_append.mp h with h | h
    · exact Or.inl h
    · exact Or.inr ⟨rfl, List.mem_singleton.mp h⟩
  | unwatch => exact Or.inl (List.mem_of_mem_filter h)
  | materialize | subscribe | unsubscribe | refetch | emit | flush | mutated | answered | timedOut
  | tick | goOn | giveBack => exact Or.inl h

theorem registered_le_after : a.registered ≤ (a.after act).registered := by
  cases act with
  | subscribe | watch => exact Nat.le_succ _
  | materialize | unsubscribe | refetch | unwatch | emit | flush | mutated | answered | timedOut
  | tick | goOn | giveBack => exact Nat.le_refl _

end Registry

namespace Happening.Occurs

variable {setup : Setup} {h : Happening} {n : Notice}

/-- The one whose call has come to its turn is handed it, unless it has seen a later
transition. Nobody else sees anything. -/
theorem registry_eq (occurs : h.Occurs setup) :
    h.after.store.registry = (h.before.store.registry.after h.act).hearing h.handed? := by
  obtain ⟨hstore, hsignal, -⟩ := World.transition_of_act occurs.act
  obtain ⟨w, a, signal, w'⟩ := h
  obtain rfl : signal = w.signal setup a := hsignal
  have hstore : w'.store = (w.transition setup a).1 := hstore
  show w'.store.registry = (w.store.registry.after a).hearing _
  rw [hstore]
  cases a with
  | materialize ref => exact Store.registry_materialize ref
  | subscribe => exact Store.registry_subscribe
  | unsubscribe query l vacuum => exact Store.registry_unsubscribe l vacuum
  | refetch => exact Store.registry_refetch
  | emit event => exact Store.registry_emit _ event
  | watch | unwatch | flush | mutated | timedOut | tick | giveBack => rfl
  | answered query epoch answer =>
    show (w.transition setup (.answered query epoch answer)).1.registry = w.store.registry
    unfold World.transition
    dsimp only
    split
    · exact Store.registry_complete
    · rfl
  | goOn =>
    unfold World.transition handed? World.signal
    dsimp only
    cases hagenda : w.agenda with
    | nil => rfl
    | cons turn rest =>
      cases turn with
      | outside => rfl
      | work job =>
        cases job with
        | call t l payload =>
          dsimp only [Store.run]
          split <;> rfl
        | launch | startTimer => rfl
        | refetch => exact Store.registry_refetch
        | apply name changes => exact Store.registry_apply name changes
        | bind name =>
          dsimp only [Store.run]
          split <;> rfl
        | keepBinding name =>
          dsimp only [Store.run]
          split <;> rfl

theorem listeners_eq (occurs : h.Occurs setup) :
    h.after.store.listeners = (h.before.store.registry.after h.act).listeners :=
  (congrArg Registry.listeners occurs.registry_eq).trans Registry.listeners_hearing

theorem of_handed (occurs : h.Occurs setup) (handed : h.handed? = some n) :
    h.act = .goOn ∧
      (∃ rest, h.before.agenda = .work (.call n.transition n.listener n.payload) :: rest) ∧
      h.before.store.seenBy n.listener < n.transition := by
  obtain ⟨-, hsignal, -⟩ := World.transition_of_act occurs.act
  unfold handed? at handed
  split at handed
  · next l payload t l' payload' rest hcalls hagenda =>
    cases handed
    rw [hcalls] at hsignal
    by_cases hact : h.act = .goOn
    · rw [hact, World.signal_goOn hagenda] at hsignal
      dsimp only [Store.run] at hsignal
      split at hsignal
      · next hnew =>
        cases hsignal
        exact ⟨hact, ⟨rest, hagenda⟩, hnew⟩
      · cases hsignal
    · rw [World.signal_eq_none hact] at hsignal
      cases hsignal
  · cases handed

theorem notice_or_due (occurs : h.Occurs setup) (due : n ∈ h.after.due) :
    n ∈ h.notices ∨ n ∈ h.before.due := by
  rw [occurs.notices_eq.2] at due
  rcases List.mem_append.mp due with hnew | hrest
  · exact Or.inl hnew
  · obtain ⟨turn, hmem, hturn⟩ := List.mem_filterMap.mp hrest
    refine Or.inr (List.mem_filterMap.mpr ⟨turn, ?_, hturn⟩)
    have hsublist : (h.before.rest h.act).Sublist h.before.agenda := by
      unfold World.rest
      split
      · exact List.tail_sublist _
      · exact List.tail_sublist _
      · exact List.Sublist.refl _
    exact hsublist.subset hmem

theorem due_of_handed (occurs : h.Occurs setup) (handed : h.handed? = some n) :
    n ∈ h.before.due := by
  obtain ⟨-, ⟨rest, hagenda⟩, -⟩ := occurs.of_handed handed
  rw [World.due, hagenda]
  exact List.mem_cons_self

theorem seenBy_eq (occurs : h.Occurs setup) (l : ListenerId) :
    h.after.store.seenBy l =
      ((h.handedTo? l).map Notice.transition).getD (h.before.store.seenBy l) := by
  have hseen : h.after.store.seen = (h.before.store.registry.hearing h.handed?).seen := by
    have hregistry := congrArg Registry.seen occurs.registry_eq
    cases hhanded : h.handed? with
    | none =>
      rw [hhanded] at hregistry
      exact hregistry.trans Registry.seen_after
    | some n =>
      rw [hhanded] at hregistry
      exact hregistry.trans (congrArg (·.insert n.listener n.transition) Registry.seen_after)
  rw [Store.seenBy, hseen, handedTo?]
  cases hhanded : h.handed? with
  | none => rfl
  | some n =>
    show ((h.before.store.seen.insert n.listener n.transition).get? l).getD 0 = _
    rw [Table.get?_insert, Option.filter_some]
    by_cases hl : n.listener = l
    · simp [hl]
    · simp [hl, Store.seenBy]

end Happening.Occurs

variable {setup : Setup} {history : List Happening} {w : World}

/-- Nothing that is due or has been seen is later than the last transition. -/
theorem Run.due_le (run : Run setup history w) :
    (∀ n ∈ w.due, n.transition ≤ w.store.transitions) ∧
      ∀ l, w.store.seenBy l ≤ w.store.transitions := by
  induction history using List.reverseRecOn generalizing w with
  | nil =>
    obtain rfl := run_nil.mp run
    exact ⟨List.forall_mem_nil _, fun l => Nat.le_refl 0⟩
  | append_singleton history last ih =>
    obtain ⟨hrun, hoccurs, rfl⟩ := run.concat
    obtain ⟨hdue, hseen⟩ := ih hrun
    have hle := hoccurs.transitions_le
    refine ⟨fun n hn => ?_, fun l => ?_⟩
    · rcases hoccurs.notice_or_due hn with hnow | hbefore
      · obtain ⟨htransition, hnumber, -⟩ := hoccurs.transition_of_notice hnow
        omega
      · exact (hdue n hbefore).trans hle
    · rw [hoccurs.seenBy_eq]
      cases hhanded : last.handedTo? l with
      | none => exact (hseen l).trans hle
      | some n =>
        obtain ⟨hcalled, -⟩ := Happening.handedTo?_eq_some.mp hhanded
        exact (hdue n (hoccurs.due_of_handed hcalled)).trans hle

end LiveQuery
