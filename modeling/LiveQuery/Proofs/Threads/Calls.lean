import LiveQuery.Proofs.Store.Listeners
import LiveQuery.Proofs.Threads.Agendas

/-!
# What listeners receive on several threads

A thread first agrees to a call, by noting that the listener has seen its transition, and then makes
it. What is agreed to with a listener goes forward, whatever the threads do, since who has seen a
transition is not called for an earlier one. But another thread may agree to a later call and make
it first; then the listener goes back. That is the only way: if no call overtakes one that another
thread has agreed to, each listener is told of later and later transitions. What it is handed is in
any case what has been there right after the transition (`Threads.Run.listeners_go_forward`).
-/

namespace LiveQuery

namespace Piece

def notice? (p : Piece) : Option Notice := p.work?.bind Work.notice?

/-- The call that a thread has agreed to make. -/
def agreed? : Piece → Option Notice
  | .ask (.call transition _ _) (.call listener payload) => some ⟨transition, listener, payload⟩
  | _ => none

theorem agreed?_of_waits {p : Piece} (h : p.waits = true) : p.agreed? = none := by
  cases p with
  | work | outside => rfl
  | ask | schedule | number | setTimer | unschedule | take => cases h

end Piece

namespace Threads

def due (w : Threads) : List Notice := w.pieces.filterMap Piece.notice?

def agreed (w : Threads) : List Notice := w.pieces.filterMap Piece.agreed?

namespace Step

def notices (h : Step) : List Notice := h.outcome.planned.filterMap Piece.notice?

def agreed (h : Step) : List Notice := h.outcome.planned.filterMap Piece.agreed?

def handed? (h : Step) : Option Notice :=
  match h.outcome.signal, h.done with
  | some (.call listener payload), [.ask (.call transition _ _) _] =>
    some ⟨transition, listener, payload⟩
  | _, _ => none

/-- Is a listener called while another thread has agreed to call it for an earlier transition? -/
def Overtakes (h : Step) (l : ListenerId) : Prop :=
  ∃ n ∈ h.handed?, n.listener = l ∧
    ∃ m ∈ h.others.filterMap Piece.agreed?, m.listener = l ∧ m.transition < n.transition

instance (h : Step) (l : ListenerId) : Decidable (h.Overtakes l) :=
  inferInstanceAs (Decidable (∃ n ∈ h.handed?, n.listener = l ∧
    ∃ m ∈ h.others.filterMap Piece.agreed?, m.listener = l ∧ m.transition < n.transition))

def Subscribes (h : Step) (query : QueryId) (l : ListenerId) : Prop :=
  h.act = .subscribe query ∧ (h.before.store.subscribe query).1 = l

def Watches (h : Step) (l : ListenerId) : Prop :=
  h.act = .watch ∧ h.before.store.watch.1 = l

/-- Does a listener come? -/
def Registers (h : Step) (l : ListenerId) : Prop :=
  (∃ query, h.Subscribes query l) ∨ h.Watches l

end Step

/-- The calls of a listener that have been agreed to. -/
def agreedTo (history : List Step) (l : ListenerId) : List Notice :=
  (history.flatMap Step.agreed).filter (·.listener = l)

def received (history : List Step) (l : ListenerId) : List Notice :=
  (history.filterMap Step.handed?).filter (·.listener = l)

end Threads

/-! ## Steps -/

namespace Shared

variable {setup : Setup} {m : Shared} {agenda : List Piece} {a : Act} {outcome : Outcome}
variable {n : Notice}

theorem tells {rest : Multiset Request} (lives : (m.store.cache rest).Lives)
    (agenda : List Piece) (a : Act) : m.store.Tells (m.transition setup agenda a) := by
  have hrefl : m.store.Tells (m.store, []) := Store.tells_refl (List.forall_mem_nil _)
  have hbatch : ∀ batch, m.store.Tells ({ m.store with batch }, []) := fun batch =>
    (Store.tells_refl (List.forall_mem_nil _)).of_eq rfl fun _ => rfl
  cases a with
  | materialize ref => exact Store.tells_materialize ref
  | subscribe => exact Store.tells_subscribe
  | unsubscribe query listener vacuum => exact Store.tells_unsubscribe listener vacuum
  | refetch => exact Store.tells_refetch
  | watch | unwatch => exact (Store.tells_refl (List.forall_mem_nil _)).of_eq rfl fun _ => rfl
  | emit event =>
    unfold transition
    dsimp only
    split
    · exact Store.tells_apply _ _
    · exact hbatch _
  | flush => exact hbatch _
  | mutated => exact Store.tells_apply _ _
  | answered query epoch answer =>
    unfold transition
    dsimp only
    split
    · next request hfind =>
      refine Store.tells_complete fun hcurrent => ?_
      obtain ⟨q, hq, -⟩ := (@Store.isCurrent_iff m.store rest request).mp hcurrent
      exact lives.home hq
    · exact hrefl
  | timedOut =>
    unfold transition
    dsimp only
    split
    · exact hbatch _
    · exact hrefl
  | goOn =>
    cases agenda with
    | nil => exact hrefl
    | cons piece others =>
      cases piece with
      | work job => exact Store.tells_run job
      | schedule | unschedule => exact hbatch _
      | take taken =>
        dsimp only [transition]
        split
        · exact Store.tells_refl (Store.silent_applyEvents taken)
        · exact hbatch _
      | ask | number | setTimer | outside => exact hrefl
  | tick | giveBack => exact hrefl

theorem agreed?_ask (signal : Signal) : (m.ask signal).planned.filterMap Piece.agreed? = [] := by
  cases signal <;> rfl

theorem filterMap_agreed?_map (work : List Work) :
    (work.map Piece.work).filterMap Piece.agreed? = [] :=
  List.filterMap_eq_nil_iff.mpr fun p hp => Piece.agreed?_of_waits (waits_map work p hp)

theorem perform_call (hears : m.store.seenBy n.listener < n.transition) :
    m.perform setup (.work n.work) =
      { shared := { m with
          store := { m.store with seen := m.store.seen.insert n.listener n.transition } }
        planned := [.ask n.work (.call n.listener n.payload)] } := by
  dsimp only [perform, Notice.work, Store.run]
  rw [if_pos (show (m.store.seen.get? n.listener).getD 0 < n.transition from hears)]
  rfl

theorem agreed?_perform {job : Work} (silent : job.notice? = none) :
    (m.perform setup (.work job)).planned.filterMap Piece.agreed? = [] ∧
      (m.perform setup (.work job)).shared.store.registry = m.store.registry := by
  rw [planned_work, List.filterMap_append, filterMap_agreed?_map, List.append_nil]
  show _ ∧ (m.store.run setup job).1.registry = _
  cases job with
  | call => cases silent
  | launch | startTimer => exact ⟨rfl, rfl⟩
  | refetch => exact ⟨rfl, Store.registry_refetch⟩
  | apply name changes => exact ⟨rfl, Store.registry_apply name changes⟩
  | bind name =>
    dsimp only [Store.run]
    split <;> exact ⟨rfl, rfl⟩
  | keepBinding name =>
    dsimp only [Store.run]
    split <;> exact ⟨rfl, rfl⟩

theorem agreed_or_passed (h : m.act? setup agenda a = some outcome)
    (done : a.done agenda = [.work n.work]) :
    outcome.planned.filterMap Piece.agreed? = [n] ∨ n.transition ≤ m.store.seenBy n.listener := by
  cases a with
  | goOn =>
    cases agenda with
    | nil => cases done
    | cons piece rest =>
      cases done
      cases h
      by_cases hears : m.store.seenBy n.listener < n.transition
      · rw [perform_call hears]
        exact Or.inl rfl
      · exact Or.inr (Nat.not_lt.mp hears)
  | giveBack =>
    cases agenda with
    | nil => cases done
    | cons piece rest =>
      cases done
      cases h
  | materialize | subscribe | unsubscribe | refetch | watch | unwatch | emit | flush | mutated
  | answered | timedOut | tick => cases done

/-- Who is called hears of a later transition than before. Nobody else hears of anything. -/
theorem agreed_of_act (h : m.act? setup agenda a = some outcome) :
    outcome.planned.filterMap Piece.agreed? = [] ∧
      outcome.shared.store.registry = m.store.registry.after a ∨
    ∃ n : Notice, outcome.planned.filterMap Piece.agreed? = [n] ∧
      a.done agenda = [.work n.work] ∧ m.store.seenBy n.listener < n.transition ∧
      outcome.shared.store.registry = (m.store.registry.after a).hearing (some n) := by
  cases a with
  | materialize ref =>
    obtain ⟨-, h⟩ := Option.ite_none_right_eq_some.mp h
    cases h
    exact Or.inl ⟨filterMap_agreed?_map _, Store.registry_materialize ref⟩
  | subscribe query =>
    obtain ⟨-, h⟩ := Option.ite_none_right_eq_some.mp h
    cases h
    exact Or.inl ⟨filterMap_agreed?_map _, Store.registry_subscribe⟩
  | unsubscribe query listener vacuum =>
    obtain ⟨-, h⟩ := Option.ite_none_right_eq_some.mp h
    cases h
    exact Or.inl ⟨filterMap_agreed?_map _, Store.registry_unsubscribe listener vacuum⟩
  | refetch query =>
    obtain ⟨-, h⟩ := Option.ite_none_right_eq_some.mp h
    cases h
    exact Or.inl ⟨filterMap_agreed?_map _, Store.registry_refetch⟩
  | watch | unwatch | flush =>
    obtain ⟨-, h⟩ := Option.ite_none_right_eq_some.mp h
    cases h
    exact Or.inl ⟨rfl, rfl⟩
  | emit event =>
    obtain ⟨-, h⟩ := Option.ite_none_right_eq_some.mp h
    split at h
    · cases h
      exact Or.inl ⟨filterMap_agreed?_map _, Store.registry_apply _ _⟩
    · cases h
      exact Or.inl ⟨rfl, rfl⟩
  | mutated service change =>
    obtain ⟨-, h⟩ := Option.ite_none_right_eq_some.mp h
    cases h
    exact Or.inl ⟨filterMap_agreed?_map _, Store.registry_apply _ _⟩
  | answered query epoch answer =>
    simp only [act?] at h
    split at h
    · obtain ⟨-, h⟩ := Option.ite_none_right_eq_some.mp h
      cases h
      exact Or.inl ⟨filterMap_agreed?_map _, Store.registry_complete⟩
    · cases h
  | timedOut window =>
    simp only [act?] at h
    split at h
    · obtain ⟨-, h⟩ := Option.ite_none_right_eq_some.mp h
      cases h
      split <;> exact Or.inl ⟨rfl, rfl⟩
    · cases h
  | tick =>
    cases h
    exact Or.inl ⟨rfl, rfl⟩
  | goOn =>
    cases agenda with
    | nil => cases h
    | cons piece rest =>
      cases piece with
      | outside => cases h
      | work job =>
        cases h
        cases hjob : job.notice? with
        | none => exact Or.inl (agreed?_perform hjob)
        | some n =>
          obtain rfl : job = n.work := by
            cases job <;> cases hjob
            rfl
          by_cases hears : m.store.seenBy n.listener < n.transition
          · rw [perform_call hears]
            exact Or.inr ⟨n, rfl, rfl, hears, rfl⟩
          · dsimp only [perform, Notice.work, Store.run]
            rw [if_neg (show ¬(m.store.seen.get? n.listener).getD 0 < n.transition from hears)]
            exact Or.inl ⟨rfl, rfl⟩
      | ask job signal =>
        cases h
        exact Or.inl ⟨agreed?_ask signal, congrArg Store.registry (m.ask_eq signal).1⟩
      | setTimer window =>
        cases h
        exact Or.inl ⟨rfl, rfl⟩
      | schedule =>
        cases h
        dsimp only [perform]
        split <;> exact Or.inl ⟨rfl, rfl⟩
      | number | unschedule =>
        cases h
        exact Or.inl ⟨rfl, rfl⟩
      | take taken =>
        cases h
        dsimp only [perform]
        split
        · exact Or.inl ⟨filterMap_agreed?_map _, rfl⟩
        · exact Or.inl ⟨rfl, rfl⟩
  | giveBack =>
    simp only [act?] at h
    split at h
    · cases h
      exact Or.inl ⟨rfl, rfl⟩
    · cases h

theorem asked_or_silent (h : m.act? setup agenda a = some outcome) :
    (∃ job signal, a.done agenda = [.ask job signal] ∧ outcome.signal = some signal) ∨
      (a.done agenda).filterMap Piece.agreed? = [] ∧
        ∀ l payload, outcome.signal ≠ some (.call l payload) := by
  have hsilent : outcome.signal = none → ∀ l payload, outcome.signal ≠ some (.call l payload) := by
    intro hnone l payload hcall
    rw [hnone] at hcall
    cases hcall
  cases a with
  | materialize | subscribe | unsubscribe | refetch | watch | unwatch | flush | mutated =>
    obtain ⟨-, h⟩ := Option.ite_none_right_eq_some.mp h
    cases h
    exact Or.inr ⟨rfl, hsilent rfl⟩
  | emit event =>
    obtain ⟨-, h⟩ := Option.ite_none_right_eq_some.mp h
    split at h <;> cases h <;> exact Or.inr ⟨rfl, hsilent rfl⟩
  | answered query epoch answer =>
    simp only [act?] at h
    split at h
    · obtain ⟨-, h⟩ := Option.ite_none_right_eq_some.mp h
      cases h
      exact Or.inr ⟨rfl, hsilent rfl⟩
    · cases h
  | timedOut window =>
    simp only [act?] at h
    split at h
    · obtain ⟨-, h⟩ := Option.ite_none_right_eq_some.mp h
      cases h
      refine Or.inr ⟨rfl, hsilent ?_⟩
      split <;> rfl
    · cases h
  | tick =>
    cases h
    exact Or.inr ⟨rfl, hsilent rfl⟩
  | goOn =>
    cases agenda with
    | nil => cases h
    | cons piece rest =>
      cases piece with
      | outside => cases h
      | ask job signal =>
        cases h
        refine Or.inl ⟨job, signal, rfl, ?_⟩
        cases signal <;> rfl
      | setTimer window =>
        cases h
        refine Or.inr ⟨rfl, fun l payload hcall => ?_⟩
        cases hcall
      | work | schedule | number | unschedule =>
        cases h
        exact Or.inr ⟨rfl, hsilent rfl⟩
      | take taken =>
        cases h
        refine Or.inr ⟨rfl, hsilent ?_⟩
        dsimp only [perform]
        split <;> rfl
  | giveBack =>
    cases agenda with
    | nil => cases h
    | cons piece rest =>
      cases piece with
      | outside =>
        cases h
        exact Or.inr ⟨rfl, hsilent rfl⟩
      | work | ask | schedule | number | setTimer | unschedule | take => cases h

end Shared

namespace Threads

namespace Step.Occurs

variable {setup : Setup} {h : Step} {query : QueryId} {l : ListenerId} {n : Notice}

theorem handed?_toList (occurs : h.Occurs setup) :
    h.handed?.toList = h.done.filterMap Piece.agreed? := by
  rcases Shared.asked_or_silent occurs.outcome.2.1 with ⟨job, signal, hdone, hsignal⟩ | hsilent
  · have hdone : h.done = [.ask job signal] := hdone
    rw [handed?, hdone, hsignal]
    cases job <;> cases signal <;> rfl
  · have hnone : h.done.filterMap Piece.agreed? = [] := hsilent.1
    rw [hnone, handed?]
    split
    · next hcall _ => exact absurd hcall (hsilent.2 _ _)
    · rfl

theorem notices_eq (occurs : h.Occurs setup) : h.notices =
    (h.before.toShared.transition setup h.agenda h.act).2.filterMap Work.notice? := by
  rw [← occurs.transition.2, List.filterMap_filterMap]
  rfl

theorem tells (occurs : h.Occurs setup) : ∃ work,
    h.before.store.Tells (h.after.store, work) ∧ h.notices = work.filterMap Work.notice? := by
  refine ⟨_, ?_, occurs.notices_eq⟩
  rw [occurs.transition.1]
  exact Shared.tells occurs.lives h.agenda h.act

theorem transitions_le (occurs : h.Occurs setup) :
    h.before.store.transitions ≤ h.after.store.transitions := by
  obtain ⟨work, htells, -⟩ := occurs.tells
  have hnumbered : h.after.store.transitions = h.before.store.transitions ∨
      h.after.store.transitions = h.before.store.transitions + 1 := htells.numbered
  omega

theorem transition_of_notice (occurs : h.Occurs setup) (planned : n ∈ h.notices) :
    n.transition = h.before.store.transitions + 1 ∧
      h.after.store.transitions = h.before.store.transitions + 1 ∧
      h.after.store.Presents n.listener n.payload := by
  obtain ⟨work, htells, hwork⟩ := occurs.tells
  obtain ⟨hnumber, htransition, hpresents⟩ := htells.planned n (hwork ▸ planned)
  exact ⟨htransition, hnumber, hpresents⟩

theorem due_perm (occurs : h.Occurs setup) :
    h.before.due.Perm (h.done.filterMap Piece.notice? ++ h.kept.filterMap Piece.notice?) ∧
      h.after.due.Perm (h.notices ++ h.kept.filterMap Piece.notice?) := by
  obtain ⟨hbefore, hafter⟩ := occurs.pieces
  have hdue := hbefore.filterMap Piece.notice?
  have hdue' := hafter.filterMap Piece.notice?
  rw [List.filterMap_append] at hdue hdue'
  exact ⟨hdue, hdue'⟩

theorem due_of_notice (occurs : h.Occurs setup) (planned : n ∈ h.notices) : n ∈ h.after.due :=
  occurs.due_perm.2.mem_iff.mpr (List.mem_append_left _ planned)

theorem notice_or_due (occurs : h.Occurs setup) (due : n ∈ h.after.due) :
    n ∈ h.notices ∨ n ∈ h.before.due := by
  obtain ⟨hbefore, hafter⟩ := occurs.due_perm
  refine (List.mem_append.mp (hafter.mem_iff.mp due)).imp_right fun hothers => ?_
  exact hbefore.mem_iff.mpr (List.mem_append_right _ hothers)

/-- A planned call waits for its turn, and then is agreed to or passed over. -/
theorem of_due (occurs : h.Occurs setup) (due : n ∈ h.before.due) :
    n ∈ h.after.due ∨ h.agreed = [n] ∨ n.transition ≤ h.before.store.seenBy n.listener := by
  obtain ⟨hbefore, hafter⟩ := occurs.due_perm
  rcases List.mem_append.mp (hbefore.mem_iff.mp due) with hdone | hothers
  · obtain ⟨p, hp, hn⟩ := List.mem_filterMap.mp hdone
    obtain rfl : p = .work n.work := by
      obtain ⟨job, hjob, hn⟩ := Option.bind_eq_some_iff.mp hn
      cases p <;> cases hjob
      cases job <;> cases hn
      rfl
    exact Or.inr (Shared.agreed_or_passed occurs.outcome.2.1 (Act.done_eq_of_mem hp))
  · exact Or.inl (hafter.mem_iff.mpr (List.mem_append_right _ hothers))

theorem agreed_cases (occurs : h.Occurs setup) (l : ListenerId) :
    h.agreed.filter (·.listener = l) = [] ∧
      h.after.store.seenBy l = h.before.store.seenBy l ∨
    ∃ n ∈ h.before.due, h.agreed.filter (·.listener = l) = [n] ∧ n.listener = l ∧
      h.before.store.seenBy l < n.transition ∧ h.after.store.seenBy l = n.transition := by
  have hshared : h.after.store.registry = h.outcome.shared.store.registry :=
    congrArg (·.store.registry) occurs.shared
  rcases Shared.agreed_of_act occurs.outcome.2.1 with
    ⟨hnone, hregistry⟩ | ⟨n, hagreed, hdone, hears, hregistry⟩
  · have hagreed : h.agreed = [] := hnone
    have hseen : h.after.store.seen = h.before.store.seen :=
      (congrArg Registry.seen (hshared.trans hregistry)).trans Registry.seen_after
    exact Or.inl ⟨by rw [hagreed]; rfl, by rw [Store.seenBy, hseen]; rfl⟩
  · have hagreed : h.agreed = [n] := hagreed
    have hseen : h.after.store.seen = h.before.store.seen.insert n.listener n.transition :=
      (congrArg Registry.seen (hshared.trans hregistry)).trans
        (congrArg (·.insert n.listener n.transition) Registry.seen_after)
    rw [hagreed, Store.seenBy, hseen, Table.get?_insert]
    by_cases hl : n.listener = l
    · subst hl
      obtain ⟨hbefore, -⟩ := occurs.due_perm
      have hdone : h.done = [.work n.work] := hdone
      refine Or.inr ⟨n, hbefore.mem_iff.mpr ?_, by simp, rfl, hears, ?_⟩
      · rw [hdone]
        exact List.mem_cons_self
      · rw [if_pos rfl]
        rfl
    · refine Or.inl ⟨by simp [hl], ?_⟩
      rw [if_neg hl]
      rfl

theorem registry_eq (occurs : h.Occurs setup) :
    h.after.store.registered = (h.before.store.registry.after h.act).registered ∧
      h.after.store.listeners = (h.before.store.registry.after h.act).listeners ∧
      h.after.store.watchers = (h.before.store.registry.after h.act).watchers := by
  have hshared : h.after.store.registry = h.outcome.shared.store.registry :=
    congrArg (·.store.registry) occurs.shared
  obtain ⟨n?, hregistry⟩ : ∃ n?, h.after.store.registry =
      (h.before.store.registry.after h.act).hearing n? := by
    rcases Shared.agreed_of_act occurs.outcome.2.1 with ⟨-, hregistry⟩ | ⟨n, -, -, -, hregistry⟩
    · exact ⟨none, hshared.trans hregistry⟩
    · exact ⟨some n, hshared.trans hregistry⟩
  exact ⟨(congrArg Registry.registered hregistry).trans Registry.registered_hearing,
    (congrArg Registry.listeners hregistry).trans Registry.listeners_hearing,
    (congrArg Registry.watchers hregistry).trans Registry.watchers_hearing⟩

theorem registered_le (occurs : h.Occurs setup) :
    h.before.store.registered ≤ h.after.store.registered :=
  Registry.registered_le_after.trans_eq occurs.registry_eq.1.symm

theorem number_of_registers (occurs : h.Occurs setup) (registers : h.Registers l) :
    l.number = h.before.store.registered + 1 ∧ h.after.store.registered = l.number := by
  obtain ⟨hregistered, -⟩ := occurs.registry_eq
  rcases registers with ⟨query, hact, rfl⟩ | ⟨hact, rfl⟩
  · rw [hact] at hregistered
    exact ⟨rfl, hregistered⟩
  · rw [hact] at hregistered
    exact ⟨rfl, hregistered⟩

theorem listens_or_subscribes (occurs : h.Occurs setup)
    (listens : (query, l) ∈ h.after.store.listeners) :
    (query, l) ∈ h.before.store.listeners ∨ h.Subscribes query l := by
  rw [occurs.registry_eq.2.1] at listens
  rcases Registry.mem_listeners_after listens with hbefore | ⟨hact, rfl⟩
  · exact Or.inl hbefore
  · exact Or.inr ⟨hact, rfl⟩

theorem listens_or_watches (occurs : h.Occurs setup) (watches : l ∈ h.after.store.watchers) :
    l ∈ h.before.store.watchers ∨ h.Watches l := by
  rw [occurs.registry_eq.2.2] at watches
  rcases Registry.mem_watchers_after watches with hbefore | ⟨hact, rfl⟩
  · exact Or.inl hbefore
  · exact Or.inr ⟨hact, rfl⟩

end Step.Occurs

/-! ## Runs -/

variable {setup : Setup} {threads : Nat} {history : List Step} {w : Threads}
variable {h reg reg' told last : Step} {query : QueryId} {l : ListenerId} {n : Notice}
variable {payload : Payload}

theorem agreedTo_concat : agreedTo (history ++ [last]) l =
    agreedTo history l ++ last.agreed.filter (·.listener = l) := by
  rw [agreedTo, List.flatMap_append, List.filter_append, List.flatMap_singleton]
  rfl

theorem received_concat_of_handed (handed : last.handed? = some n) (listener : n.listener = l) :
    received (history ++ [last]) l = received history l ++ [n] := by
  simp [received, handed, listener]

theorem received_concat_of_not_handed (silent : ∀ n, last.handed? = some n → n.listener ≠ l) :
    received (history ++ [last]) l = received history l := by
  cases handed : last.handed? with
  | none => simp [received, handed]
  | some n => simp [received, handed, silent n handed]

theorem Run.number_le (run : Run setup threads history w) (mem : reg ∈ history)
    (registers : reg.Registers l) : l.number ≤ w.store.registered := by
  induction history using List.reverseRecOn generalizing w with
  | nil => cases mem
  | append_singleton history last ih =>
    obtain ⟨hrun, hoccurs, rfl⟩ := run.concat
    rcases List.mem_append.mp mem with hmem | hmem
    · exact (ih hrun hmem).trans hoccurs.registered_le
    · obtain rfl := List.mem_singleton.mp hmem
      exact (hoccurs.number_of_registers registers).2.ge

theorem Run.registration_unique (run : Run setup threads history w) (mem : reg ∈ history)
    (mem' : reg' ∈ history) (registers : reg.Registers l) (registers' : reg'.Registers l) :
    reg = reg' := by
  induction history using List.reverseRecOn generalizing w with
  | nil => cases mem
  | append_singleton history last ih =>
    obtain ⟨hrun, hoccurs, rfl⟩ := run.concat
    have hnew : ∀ {reg}, reg ∈ history → reg.Registers l → ¬last.Registers l := by
      intro reg hmem hearlier hnow
      have hle := hrun.number_le hmem hearlier
      have hnext := (hoccurs.number_of_registers hnow).1
      omega
    rcases List.mem_append.mp mem with hmem | hmem
    · rcases List.mem_append.mp mem' with hmem' | hmem'
      · exact ih hrun hmem hmem'
      · exact absurd (List.mem_singleton.mp hmem' ▸ registers') (hnew hmem registers)
    · obtain rfl := List.mem_singleton.mp hmem
      rcases List.mem_append.mp mem' with hmem' | hmem'
      · exact absurd registers (hnew hmem' registers')
      · exact (List.mem_singleton.mp hmem').symm

theorem Run.exists_registration (run : Run setup threads history w) :
    (∀ query l, (query, l) ∈ w.store.listeners → ∃ reg ∈ history, reg.Subscribes query l) ∧
      ∀ l ∈ w.store.watchers, ∃ reg ∈ history, reg.Watches l := by
  induction history using List.reverseRecOn generalizing w with
  | nil =>
    obtain rfl := run_nil.mp run
    exact ⟨nofun, nofun⟩
  | append_singleton history last ih =>
    have hlast : last ∈ history ++ [last] := List.mem_concat_self
    obtain ⟨hrun, hoccurs, rfl⟩ := run.concat
    obtain ⟨hlisteners, hwatchers⟩ := ih hrun
    refine ⟨fun query l hlistens => ?_, fun l hwatches => ?_⟩
    · rcases hoccurs.listens_or_subscribes hlistens with hbefore | hnow
      · obtain ⟨reg, hmem, hreg⟩ := hlisteners query l hbefore
        exact ⟨reg, List.mem_append_left _ hmem, hreg⟩
      · exact ⟨last, hlast, hnow⟩
    · rcases hoccurs.listens_or_watches hwatches with hbefore | hnow
      · obtain ⟨reg, hmem, hreg⟩ := hwatchers l hbefore
        exact ⟨reg, List.mem_append_left _ hmem, hreg⟩
      · exact ⟨last, hlast, hnow⟩

theorem Run.registers_of_presents (run : Run setup threads history w) (told_mem : told ∈ history)
    (presents : told.after.store.Presents l payload) :
    ∃ reg ∈ history,
      (∃ query s, reg.Subscribes query l ∧ told.after.store.state? query = some s ∧
        payload = .state s) ∨
      reg.Watches l ∧ payload = .snapshot told.after.store.services := by
  obtain ⟨before, since, rfl⟩ := List.append_of_mem told_mem
  obtain ⟨hlisteners, hwatchers⟩ := run.until.exists_registration
  have hall : ∀ {reg}, reg ∈ before ++ [told] → reg ∈ before ++ told :: since := by
    intro reg hmem
    rw [List.append_cons]
    exact List.mem_append_left _ hmem
  cases payload with
  | state s =>
    obtain ⟨query, hlistens, hstate⟩ := presents
    obtain ⟨reg, hmem, hreg⟩ := hlisteners query l hlistens
    exact ⟨reg, hall hmem, Or.inl ⟨query, s, hreg, hstate, rfl⟩⟩
  | snapshot services =>
    obtain ⟨hwatches, rfl⟩ := presents
    obtain ⟨reg, hmem, hreg⟩ := hwatchers l hwatches
    exact ⟨reg, hall hmem, Or.inr ⟨hreg, rfl⟩⟩

theorem Run.eq_state_of_presents (run : Run setup threads history w) (mem : reg ∈ history)
    (registers : reg.Subscribes query l) (told_mem : told ∈ history)
    (presents : told.after.store.Presents l payload) :
    ∃ s, told.after.store.state? query = some s ∧ payload = .state s := by
  obtain ⟨reg', hmem', ⟨x, s, hreg', hstate, hpayload⟩ | ⟨hreg', -⟩⟩ :=
    run.registers_of_presents told_mem presents
  · obtain rfl := run.registration_unique mem hmem' (Or.inl ⟨_, registers⟩) (Or.inl ⟨_, hreg'⟩)
    cases registers.1.symm.trans hreg'.1
    exact ⟨s, hstate, hpayload⟩
  · obtain rfl := run.registration_unique mem hmem' (Or.inl ⟨_, registers⟩) (Or.inr hreg')
    cases registers.1.symm.trans hreg'.1

theorem Run.eq_snapshot_of_presents (run : Run setup threads history w) (mem : reg ∈ history)
    (registers : reg.Watches l) (told_mem : told ∈ history)
    (presents : told.after.store.Presents l payload) :
    payload = .snapshot told.after.store.services := by
  obtain ⟨reg', hmem', ⟨x, s, hreg', -⟩ | ⟨-, hpayload⟩⟩ :=
    run.registers_of_presents told_mem presents
  · obtain rfl := run.registration_unique mem hmem' (Or.inr registers) (Or.inl ⟨_, hreg'⟩)
    cases registers.1.symm.trans hreg'.1
  · exact hpayload

theorem Run.exists_told (run : Run setup threads history w) :
    (∀ n ∈ w.due, ∃ told ∈ history, n ∈ told.notices) ∧
      ∀ n ∈ agreedTo history l, ∃ told ∈ history, n ∈ told.notices := by
  induction history using List.reverseRecOn generalizing w with
  | nil =>
    obtain rfl := run_nil.mp run
    refine ⟨fun n hn => ?_, List.forall_mem_nil _⟩
    rw [due, pieces_replicate] at hn
    cases hn
  | append_singleton history last ih =>
    obtain ⟨hrun, hoccurs, rfl⟩ := run.concat
    obtain ⟨hdue, hagreed⟩ := ih hrun
    have hearlier : ∀ {n : Notice}, (∃ told ∈ history, n ∈ told.notices) →
        ∃ told ∈ history ++ [last], n ∈ told.notices := fun ⟨told, hmem, hn⟩ =>
      ⟨told, List.mem_append_left _ hmem, hn⟩
    refine ⟨fun n hn => ?_, fun n hn => ?_⟩
    · rcases hoccurs.notice_or_due hn with hnow | hbefore
      · exact ⟨last, List.mem_concat_self, hnow⟩
      · exact hearlier (hdue n hbefore)
    · rw [agreedTo_concat] at hn
      rcases List.mem_append.mp hn with hbefore | hnow
      · exact hearlier (hagreed n hbefore)
      · rcases hoccurs.agreed_cases l with ⟨hnone, -⟩ | ⟨m, hm, hone, -⟩
        · rw [hnone] at hnow
          cases hnow
        · rw [hone] at hnow
          rw [List.mem_singleton.mp hnow]
          exact hearlier (hdue m hm)

theorem Run.agreedTo_seen (run : Run setup threads history w) (l : ListenerId) :
    (∀ n ∈ agreedTo history l, n.transition ≤ w.store.seenBy l) ∧
      ((agreedTo history l).map Notice.transition).Pairwise (· < ·) := by
  induction history using List.reverseRecOn generalizing w with
  | nil => exact ⟨List.forall_mem_nil _, List.Pairwise.nil⟩
  | append_singleton history last ih =>
    obtain ⟨hrun, hoccurs, rfl⟩ := run.concat
    obtain ⟨hle, hpairwise⟩ := ih hrun
    rw [agreedTo_concat]
    rcases hoccurs.agreed_cases l with ⟨hnone, hseen⟩ | ⟨n, -, hone, rfl, hnew, hseen⟩
    · rw [hnone, hseen, List.append_nil]
      exact ⟨hle, hpairwise⟩
    · rw [hone, hseen, List.map_append, List.pairwise_append]
      refine ⟨?_, hpairwise, List.pairwise_singleton _ _, ?_⟩
      · rw [List.forall_mem_append]
        exact ⟨fun m hm => (hle m hm).trans hnew.le, List.forall_mem_singleton.mpr (Nat.le_refl _)⟩
      · intro t ht t' ht'
        obtain ⟨m, hm, rfl⟩ := List.mem_map.mp ht
        obtain rfl := List.mem_singleton.mp ht'
        exact Nat.lt_of_le_of_lt (hle m hm) hnew

/-- What has been agreed to with a listener has been received, or the call is still to be made. -/
theorem Run.received_perm (run : Run setup threads history w) (l : ListenerId) :
    (received history l ++ w.agreed.filter (·.listener = l)).Perm (agreedTo history l) := by
  have hhanded : history.filterMap Step.handed? =
      (history.flatMap Step.done).filterMap Piece.agreed? := by
    rw [List.filterMap_flatMap, List.filterMap_eq_flatMap_toList]
    exact List.flatMap_congr fun h hmem => (run.occurs h hmem).handed?_toList
  have hagreed : history.flatMap Step.agreed =
      (history.flatMap (·.outcome.planned)).filterMap Piece.agreed? := by
    rw [List.filterMap_flatMap]
    rfl
  rw [received, agreedTo, ← List.filter_append, hhanded, hagreed, agreed, ← List.filterMap_append]
  exact ((run.planned_perm.symm.filterMap Piece.agreed?).filter _)

theorem Run.waits_of_handed (run : Run setup threads (history ++ [h]) w)
    (handed : h.handed? = some n) : ∀ p ∈ h.act.rest h.agenda, p.waits = true := by
  obtain ⟨hrun, hoccurs, -⟩ := run.concat
  have horder := hrun.inOrder _ (List.mem_of_getElem? hoccurs.outcome.1)
  have hagenda : h.done ++ h.act.rest h.agenda = h.agenda := Act.done_append_rest h.act h.agenda
  unfold Step.handed? at handed
  split at handed
  · next hdone =>
    rw [hdone] at hagenda
    rw [← hagenda] at horder
    exact horder
  · cases handed

/-- If a call overtakes nobody, those of its listener that are still to be made are not for earlier
transitions. -/
theorem Run.agreed_of_handed (run : Run setup threads (history ++ [h]) w)
    (orderly : ¬h.Overtakes l) (handed : h.handed? = some n) (listener : n.listener = l) :
    ∃ later, (h.before.agreed.filter (·.listener = l)).Perm (n :: later) ∧
      ∀ m ∈ later, n.transition ≤ m.transition := by
  obtain ⟨-, hoccurs, -⟩ := run.concat
  obtain ⟨hbefore, -⟩ := hoccurs.pieces
  refine ⟨(h.kept.filterMap Piece.agreed?).filter (·.listener = l), ?_, fun m hm => ?_⟩
  · have hpieces := (hbefore.filterMap Piece.agreed?).filter (·.listener = l)
    rw [List.filterMap_append, ← hoccurs.handed?_toList, handed, List.filter_append] at hpieces
    simpa [listener, Threads.agreed] using hpieces
  · obtain ⟨hmem, hl⟩ := List.mem_filter.mp hm
    obtain ⟨p, hp, hagreed⟩ := List.mem_filterMap.mp hmem
    rcases List.mem_append.mp hp with hown | hother
    · rw [Piece.agreed?_of_waits (run.waits_of_handed handed p hown)] at hagreed
      cases hagreed
    · refine Nat.not_lt.mp fun hlt => orderly ?_
      exact ⟨n, handed, listener, m, List.mem_filterMap.mpr ⟨p, hother, hagreed⟩,
        of_decide_eq_true hl, hlt⟩

theorem head_of_sorted {waiting later : List Notice}
    (sorted : (waiting.map Notice.transition).Pairwise (· < ·)) (perm : waiting.Perm (n :: later))
    (first : ∀ m ∈ later, n.transition ≤ m.transition) : ∃ others, waiting = n :: others := by
  cases waiting with
  | nil => exact absurd perm.length_eq (Nat.succ_ne_zero _).symm
  | cons m others =>
    rcases List.mem_cons.mp (perm.mem_iff.mp List.mem_cons_self) with rfl | hlater
    · exact ⟨others, rfl⟩
    rcases List.mem_cons.mp (perm.mem_iff.mpr List.mem_cons_self) with rfl | hbehind
    · exact ⟨others, rfl⟩
    · have hlt := (List.pairwise_cons.mp sorted).1 _ (List.mem_map_of_mem hbehind)
      exact absurd hlt (Nat.not_lt.mpr (first m hlater))

/-- If nobody is overtaken, calls are made in the order in which they have been agreed to. -/
theorem Run.received_prefix (run : Run setup threads history w)
    (orderly : ∀ h ∈ history, ¬h.Overtakes l) : received history l <+: agreedTo history l := by
  induction history using List.reverseRecOn generalizing w with
  | nil => exact List.prefix_rfl
  | append_singleton history last ih =>
    have hall := run
    obtain ⟨hrun, -, -⟩ := run.concat
    obtain ⟨waiting, hwaiting⟩ := ih hrun fun h hmem => orderly h (List.mem_append_left _ hmem)
    rw [agreedTo_concat, ← hwaiting]
    by_cases hcalled : ∃ n, last.handed? = some n ∧ n.listener = l
    · obtain ⟨n, hhanded, hl⟩ := hcalled
      obtain ⟨later, hagreed, hfirst⟩ :=
        hall.agreed_of_handed (orderly last List.mem_concat_self) hhanded hl
      have hperm : waiting.Perm (n :: later) := by
        have hreceived := hrun.received_perm l
        rw [← hwaiting] at hreceived
        exact ((List.perm_append_left_iff _).mp hreceived).symm.trans hagreed
      have hsorted := (hrun.agreedTo_seen l).2
      rw [← hwaiting, List.map_append, List.pairwise_append] at hsorted
      obtain ⟨others, rfl⟩ := head_of_sorted hsorted.2.1 hperm hfirst
      rw [received_concat_of_handed hhanded hl, List.append_cons (received history l) n others,
        List.append_assoc]
      exact List.prefix_append _ _
    · rw [received_concat_of_not_handed fun n hn hl => hcalled ⟨n, hn, hl⟩, List.append_assoc]
      exact List.prefix_append _ _

/-- Whatever threads and listeners do, what is agreed to with a listener goes forward, and each call
is made once. What it shows is what has been there right after the transition it tells of: the
state of the listener's query, or the whole store. If no call overtakes one that another thread has
agreed to, the listener is told of later and later transitions. -/
theorem Run.listeners_go_forward (run : Run setup threads history w) (l : ListenerId) :
    ((agreedTo history l).map Notice.transition).Pairwise (· < ·) ∧
      (received history l ++ w.agreed.filter (·.listener = l)).Perm (agreedTo history l) ∧
      (∀ n ∈ received history l, ∃ told ∈ history,
        told.before.store.transitions + 1 = n.transition ∧
        told.after.store.transitions = n.transition ∧
        (∀ reg ∈ history, ∀ query, reg.Subscribes query l →
          ∃ s, told.after.store.state? query = some s ∧ n.payload = .state s) ∧
        ∀ reg ∈ history, reg.Watches l →
          n.payload = .snapshot told.after.store.services) ∧
      ((∀ h ∈ history, ¬h.Overtakes l) →
        ((received history l).map Notice.transition).Pairwise (· < ·)) := by
  have hperm := run.received_perm l
  have hsorted := (run.agreedTo_seen l).2
  refine ⟨hsorted, hperm, fun n hn => ?_, fun horderly => ?_⟩
  · have hagreed : n ∈ agreedTo history l := hperm.mem_iff.mp (List.mem_append_left _ hn)
    obtain rfl : n.listener = l := of_decide_eq_true (List.mem_filter.mp hn).2
    obtain ⟨told, htold, hplanned⟩ := run.exists_told.2 n hagreed
    obtain ⟨htransition, hnumber, hpresents⟩ :=
      (run.occurs told htold).transition_of_notice hplanned
    exact ⟨told, htold, htransition.symm, hnumber.trans htransition.symm,
      fun reg hreg query hsubscribes =>
        run.eq_state_of_presents hreg hsubscribes htold hpresents,
      fun reg hreg hwatches => run.eq_snapshot_of_presents hreg hwatches htold hpresents⟩
  · exact hsorted.sublist ((run.received_prefix horderly).sublist.map _)

end Threads

namespace Notes

def mounting : List (Nat × Act) :=
  [(0, .materialize ideas), (0, .goOn), (0, .goOn), (0, .giveBack), (0, .goOn)]

/-- The listener of the ideas is told of the fetch. When the answer comes, the first thread agrees to
tell of it, and the second to tell of another note that comes after it. -/
def crossing : List (Nat × Act) :=
  [(0, .goOn), (0, .goOn), (0, .giveBack), (0, .goOn), (0, .goOn), (0, firstAnswer), (0, .goOn),
    (1, .mutated "notes" ⟨.created, note 2 200 "idea"⟩), (1, .goOn)]

def inTurn : List (Nat × Act) := crossing ++ [(0, .goOn), (1, .goOn), (1, .giveBack), (0, .giveBack)]

/-- The second thread makes its call before the first one does. -/
def outOfTurn : List (Nat × Act) :=
  crossing ++ [(1, .goOn), (1, .giveBack), (0, .goOn), (0, .giveBack)]

def heard (more : List (Nat × Act)) : List (Nat × Act) :=
  mounting ++ (0, .subscribe ideas.id) :: more

theorem calls_in_turn :
    Threads.Run {} 2 (two.played {} (heard inTurn)) (two.play {} (heard inTurn)) ∧
      (∀ h ∈ two.played {} (heard inTurn), ¬h.Overtakes ⟨1⟩) ∧
      (Threads.received (two.played {} (heard inTurn)) ⟨1⟩).map Notice.transition = [1, 2, 3] ∧
      ((Threads.received (two.played {} (heard inTurn)) ⟨1⟩).map Notice.transition).Pairwise
        (· < ·) := by
  have hrun : Threads.Run {} 2 (two.played {} (heard inTurn)) (two.play {} (heard inTurn)) :=
    Threads.Run.start.play (heard inTurn)
  have horderly : ∀ h ∈ two.played {} (heard inTurn), ¬h.Overtakes ⟨1⟩ := by decide +kernel
  obtain ⟨-, -, -, hforward⟩ := Threads.Run.listeners_go_forward hrun ⟨1⟩
  exact ⟨hrun, horderly, by decide +kernel, hforward horderly⟩

/-- A listener is told of the second transition after the third. -/
theorem call_out_of_turn :
    Threads.Run {} 2 (two.played {} (heard outOfTurn)) (two.play {} (heard outOfTurn)) ∧
      (Threads.received (two.played {} (heard outOfTurn)) ⟨1⟩).map Notice.transition = [1, 3, 2] ∧
      ¬((Threads.received (two.played {} (heard outOfTurn)) ⟨1⟩).map Notice.transition).Pairwise
        (· < ·) :=
  ⟨Threads.Run.start.play (heard outOfTurn), by decide +kernel, by decide +kernel⟩

end Notes

end LiveQuery
