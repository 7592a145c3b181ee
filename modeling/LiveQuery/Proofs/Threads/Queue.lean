import LiveQuery.Proofs.Store.Batches
import LiveQuery.Proofs.Threads.Agendas

/-!
# The queue among several threads

What a step can do to the queue, to its window and to the timers is said once
(`Shared.Handles`): an event is sent, the window is marked as scheduled, its number is read and a
timer is set, in the steps of a push; a window is closed, its mark is taken away and the events are
taken one by one, in the steps of a drain; a timer may come too late; and whatever else is done
leaves all of it alone. However threads come between each other, events are taken in the order in
which they have been sent (`Threads.Run.sentIn_eq`), and for every service what has arrived has been
applied, is held by some thread or waits in the queue (`Threads.Run.account`).
-/

namespace LiveQuery

namespace Piece

/-- Is a piece to start a timer of which the deadline has been fixed already? -/
def startsTimer : Piece → Bool
  | .work (.startTimer _ _) => true
  | .ask _ (.timer _ _) => true
  | _ => false

/-- Has a piece nothing to do with events? -/
def isAside : Piece → Bool
  | .work (.apply _ _) => false
  | .work (.startTimer _ _) => false
  | .work _ => true
  | .ask _ (.timer _ _) => false
  | .ask _ _ => true
  | .outside => true
  | _ => false

/-- The changes of a service that a piece is to apply or has taken from the queue. -/
def changesOn (name : String) : Piece → List Change
  | .work job => job.changesOn name
  | .take taken => taken.flatMap (·.on name)
  | _ => []

/-- The changes of a service that are applied where a piece is done. -/
def appliedOn (name : String) : Piece → List Change
  | .work job => job.changesOn name
  | _ => []

end Piece

def Act.sent : Act → List Event
  | .emit event => [event]
  | _ => []

theorem Act.ne_emit {a : Act} (silent : a.sent = []) (event : Event) : a ≠ .emit event := by
  rintro rfl
  cases silent

namespace Shared

/-- The event that is taken from the queue where some pieces are done. -/
def takenBy (m : Shared) : List Piece → List Event
  | [.take _] => m.store.batch.queue.take 1
  | _ => []

/-- What a step leaves of the queue and the timers. -/
structure Leaves (m m' : Shared) (batch : Batch) (timers : List (Nat × Nat)) : Prop where
  batch : m'.store.batch = batch
  timers : m'.timers = timers
  clock : m'.clock = m.clock

/-- What can be done to the queue and the timers in a step. Whoever begins to push or to drain is in
the middle of nothing else. -/
inductive Handles (setup : Setup) (m m' : Shared) (a : Act) (done planned rest : List Piece) : Prop
  where
  | sent (event : Event) (act : a = .emit event) (does : done = []) (plans : planned = [.schedule])
      (idle : ∀ p ∈ rest, p.waits = true)
      (left : m.Leaves m' (m.store.batch.send event) m.timers)
  | scheduled (act : a = .goOn) (does : done = [.schedule])
      (plans : planned = if m.store.batch.scheduled then [] else [.number])
      (left : m.Leaves m' m.store.batch.schedule m.timers)
  | numbered (act : a = .goOn) (does : done = [.number])
      (plans : planned = [.setTimer m.store.batch.window])
      (left : m.Leaves m' m.store.batch m.timers)
  | set (window : Nat) (act : a = .goOn) (does : done = [.setTimer window]) (plans : planned = [])
      (left : m.Leaves m' m.store.batch (m.timers ++ [(window, m.clock + setup.batchInterval)]))
  | flushed (act : a = .flush) (does : done = []) (plans : planned = [.unschedule, .take []])
      (idle : ∀ p ∈ rest, p.waits = true) (left : m.Leaves m' m.store.batch.close m.timers)
  | ranOut (timer : Nat × Nat) (runs : timer ∈ m.timers) (own : timer.1 = m.store.batch.window)
      (due : timer.2 ≤ m.clock) (act : a = .timedOut m.store.batch.window) (does : done = [])
      (plans : planned = [.unschedule, .take []]) (idle : ∀ p ∈ rest, p.waits = true)
      (left : m.Leaves m' m.store.batch.close (m.timers.erase timer))
  | missed (timer : Nat × Nat) (late : timer.1 ≠ m.store.batch.window) (act : a = .timedOut timer.1)
      (does : done = []) (plans : planned = [])
      (left : m.Leaves m' m.store.batch (m.timers.erase timer))
  | unscheduled (act : a = .goOn) (does : done = [.unschedule]) (plans : planned = [])
      (next : .take [] ∈ rest) (left : m.Leaves m' m.store.batch.unschedule m.timers)
  | took (taken : List Event) (event : Event) (queue : List Event) (act : a = .goOn)
      (waits : m.store.batch.queue = event :: queue) (does : done = [.take taken])
      (plans : planned = [.take (taken ++ [event])])
      (left : m.Leaves m' { m.store.batch with queue } m.timers)
  | finished (taken : List Event) (act : a = .goOn) (waits : m.store.batch.queue = [])
      (does : done = [.take taken]) (plans : planned = (Store.applyEvents taken).map .work)
      (left : m.Leaves m' m.store.batch m.timers)
  | still (silent : ∀ event, a ≠ .emit event)
      (does : (∀ p ∈ done, p.isAside = true) ∨ ∃ name changes, done = [.work (.apply name changes)])
      (plans : ∀ p ∈ planned, p.isAside = true) (batch : m'.store.batch = m.store.batch)
      (timers : m'.timers = m.timers) (clock : m.clock ≤ m'.clock)
      (passes : m.clock ≠ m'.clock → ∃ milliseconds, a = .tick milliseconds)

variable {setup : Setup} {m : Shared} {agenda : List Piece} {a : Act} {outcome : Outcome}

theorem isAside_map {work : List Work} (h : ∀ job ∈ work, job.isErrand = false) :
    ∀ p ∈ work.map Piece.work, p.isAside = true := by
  intro p hp
  obtain ⟨job, hjob, rfl⟩ := List.mem_map.mp hp
  have herrand := h job hjob
  cases job with
  | call | launch => rfl
  | startTimer | refetch | apply | bind | keepBinding => cases herrand

theorem isAside_apply {s : Store} (name : String) (changes : List Change) :
    ∀ p ∈ (s.apply setup name changes).2.map Piece.work, p.isAside = true := by
  intro p hp
  obtain ⟨job, hjob, rfl⟩ := List.mem_map.mp hp
  cases herrand : job.isErrand with
  | false => exact isAside_map (List.forall_mem_singleton.mpr herrand) _ List.mem_cons_self
  | true =>
    have hmem := List.mem_filter.mpr ⟨hjob, herrand⟩
    rw [Store.filter_isErrand_apply] at hmem
    obtain ⟨query, -, rfl⟩ := List.mem_map.mp hmem
    rfl

theorem handles_make {next : Store × List Work} (idle : a.done agenda = [])
    (silent : ∀ event, a ≠ .emit event) (aside : ∀ p ∈ next.2.map Piece.work, p.isAside = true)
    (reception : next.1.reception = m.store.reception) :
    Handles setup m (m.make next).shared a (a.done agenda) (m.make next).planned
      (a.rest agenda) := by
  refine .still silent (Or.inl ?_) aside (congrArg Reception.batch reception) rfl le_rfl
    fun h => absurd rfl h
  rw [idle]
  exact List.forall_mem_nil _

theorem handles_aside {piece : Piece} {rest : List Piece} (aside : piece.isAside = true)
    (plans : ∀ p ∈ (m.perform setup piece).planned, p.isAside = true)
    (batch : (m.perform setup piece).shared.store.batch = m.store.batch)
    (timers : (m.perform setup piece).shared.timers = m.timers)
    (clock : (m.perform setup piece).shared.clock = m.clock) :
    Handles setup m (m.perform setup piece).shared .goOn [piece] (m.perform setup piece).planned
      rest :=
  .still nofun (Or.inl (List.forall_mem_singleton.mpr aside)) plans batch timers clock.ge
    fun h => absurd clock.symm h

theorem handles_work {job : Work} {rest : List Piece}
    (plain : (Piece.work job).startsTimer = false) :
    Handles setup m (m.perform setup (.work job)).shared .goOn [.work job]
      (m.perform setup (.work job)).planned rest := by
  cases job with
  | startTimer => cases plain
  | apply name changes =>
    exact .still nofun (Or.inr ⟨name, changes, rfl⟩) (isAside_apply name changes)
      (congrArg Reception.batch (Store.reception_apply name changes)) rfl le_rfl
      fun h => absurd rfl h
  | refetch query =>
    exact handles_aside rfl (isAside_map Store.not_isErrand_refetch)
      (congrArg Reception.batch Store.reception_refetch) rfl rfl
  | launch request =>
    exact handles_aside rfl (List.forall_mem_singleton.mpr rfl) rfl rfl rfl
  | call | bind | keepBinding =>
    refine handles_aside rfl ?_ ?_ rfl rfl
    · dsimp only [perform, Store.run]
      split <;> simp [Piece.isAside]
    · dsimp only [perform, Store.run]
      split <;> rfl

theorem handles_goOn {piece : Piece} {rest : List Piece} (order : InOrder (piece :: rest))
    (plain : piece.startsTimer = false) :
    Handles setup m (m.perform setup piece).shared .goOn [piece] (m.perform setup piece).planned
      rest := by
  cases piece with
  | work job => exact handles_work plain
  | ask job signal =>
    cases signal with
    | timer => cases plain
    | call | bind => exact handles_aside rfl (List.forall_mem_singleton.mpr rfl) rfl rfl rfl
    | fetch | unbind => exact handles_aside rfl (List.forall_mem_nil _) rfl rfl rfl
  | schedule => exact .scheduled rfl rfl rfl ⟨rfl, rfl, rfl⟩
  | number => exact .numbered rfl rfl rfl ⟨rfl, rfl, rfl⟩
  | setTimer window => exact .set window rfl rfl rfl ⟨rfl, rfl, rfl⟩
  | unschedule =>
    obtain ⟨others, rfl, -⟩ := order
    exact .unscheduled rfl rfl rfl List.mem_cons_self ⟨rfl, rfl, rfl⟩
  | take taken =>
    dsimp only [perform]
    split
    · next hqueue => exact .finished taken rfl hqueue rfl rfl ⟨rfl, rfl, rfl⟩
    · next event queue hqueue => exact .took taken event queue rfl hqueue rfl rfl ⟨rfl, rfl, rfl⟩
  | outside => exact handles_aside rfl (List.forall_mem_nil _) rfl rfl rfl

theorem handles (batches : setup.batchInterval ≠ 0) (order : InOrder agenda)
    (plain : ∀ p ∈ agenda, p.startsTimer = false) (h : m.act? setup agenda a = some outcome) :
    Handles setup m outcome.shared a (a.done agenda) outcome.planned (a.rest agenda) := by
  cases a with
  | materialize ref =>
    obtain ⟨-, h⟩ := Option.ite_none_right_eq_some.mp h
    cases h
    refine handles_make rfl (Act.ne_emit rfl) ?_ (Store.reception_materialize ref)
    unfold Store.materialize
    dsimp only
    split <;> simp [Piece.isAside]
  | subscribe query =>
    obtain ⟨-, h⟩ := Option.ite_none_right_eq_some.mp h
    cases h
    exact handles_make rfl (Act.ne_emit rfl) (isAside_map Store.not_isErrand_subscribe)
      Store.reception_subscribe
  | unsubscribe query listener vacuum =>
    obtain ⟨-, h⟩ := Option.ite_none_right_eq_some.mp h
    cases h
    exact handles_make rfl (Act.ne_emit rfl)
      (isAside_map (Store.not_isErrand_unsubscribe listener vacuum))
      (Store.reception_unsubscribe listener vacuum)
  | refetch query =>
    obtain ⟨-, h⟩ := Option.ite_none_right_eq_some.mp h
    cases h
    exact handles_make rfl (Act.ne_emit rfl) (isAside_map Store.not_isErrand_refetch)
      Store.reception_refetch
  | watch | unwatch =>
    obtain ⟨-, h⟩ := Option.ite_none_right_eq_some.mp h
    cases h
    exact handles_make rfl (Act.ne_emit rfl) (List.forall_mem_nil _) rfl
  | mutated service change =>
    obtain ⟨-, h⟩ := Option.ite_none_right_eq_some.mp h
    cases h
    exact handles_make rfl (Act.ne_emit rfl) (isAside_apply _ _) (Store.reception_apply _ _)
  | emit event =>
    obtain ⟨hopen, h⟩ := Option.ite_none_right_eq_some.mp h
    rw [if_neg batches] at h
    cases h
    exact .sent event rfl rfl rfl (order.waits_of_isOpen hopen) ⟨rfl, rfl, rfl⟩
  | flush =>
    obtain ⟨hopen, h⟩ := Option.ite_none_right_eq_some.mp h
    cases h
    exact .flushed rfl rfl rfl (order.waits_of_isOpen hopen) ⟨rfl, rfl, rfl⟩
  | answered query epoch answer =>
    simp only [act?] at h
    split at h
    · obtain ⟨-, h⟩ := Option.ite_none_right_eq_some.mp h
      cases h
      exact .still (Act.ne_emit rfl) (Or.inl (List.forall_mem_nil _))
        (isAside_map Store.not_isErrand_complete)
        (congrArg Reception.batch Store.reception_complete) rfl le_rfl fun h => absurd rfl h
    · cases h
  | timedOut window =>
    simp only [act?] at h
    split at h
    · next timer hfind =>
      obtain ⟨hempty, h⟩ := Option.ite_none_right_eq_some.mp h
      obtain ⟨hwindow, hdue⟩ : timer.1 = window ∧ timer.2 ≤ m.clock := by
        simpa using List.find?_some hfind
      subst hwindow
      cases h
      have hidle : ∀ p ∈ agenda, p.waits = true := by
        rw [List.isEmpty_iff.mp hempty]
        exact List.forall_mem_nil _
      split
      · next hown =>
        exact .ranOut timer (List.mem_of_find?_eq_some hfind) hown hdue (by rw [hown]) rfl rfl hidle
          ⟨rfl, rfl, rfl⟩
      · next hlate => exact .missed timer hlate rfl rfl rfl ⟨rfl, rfl, rfl⟩
    · cases h
  | tick milliseconds =>
    cases h
    exact .still (Act.ne_emit rfl) (Or.inl (List.forall_mem_nil _)) (List.forall_mem_nil _) rfl rfl
      (Nat.le_add_right _ _) fun _ => ⟨milliseconds, rfl⟩
  | goOn =>
    cases agenda with
    | nil => cases h
    | cons piece rest =>
      cases piece with
      | outside => cases h
      | work | ask | schedule | number | setTimer | unschedule | take =>
        cases h
        exact handles_goOn order (plain _ List.mem_cons_self)
  | giveBack =>
    cases agenda with
    | nil => cases h
    | cons piece rest =>
      cases piece with
      | outside =>
        cases h
        exact .still (Act.ne_emit rfl) (Or.inl (List.forall_mem_singleton.mpr rfl))
          (List.forall_mem_nil _) rfl rfl le_rfl fun h => absurd rfl h
      | work | ask | schedule | number | setTimer | unschedule | take => cases h

theorem plain_of_isAside {p : Piece} (h : p.isAside = true) : p.startsTimer = false := by
  cases p with
  | work job => cases job <;> first | rfl | cases h
  | ask job signal => cases signal <;> first | rfl | cases h
  | schedule | number | setTimer | unschedule | take | outside => rfl

theorem changesOn_of_isAside {p : Piece} (name : String) (h : p.isAside = true) :
    p.changesOn name = [] ∧ p.appliedOn name = [] := by
  cases p with
  | work job => cases job <;> first | exact ⟨rfl, rfl⟩ | cases h
  | take => cases h
  | ask | schedule | number | setTimer | unschedule | outside => exact ⟨rfl, rfl⟩

theorem takenBy_eq_nil {done : List Piece} (does : (∀ p ∈ done, p.isAside = true) ∨
    ∃ name changes, done = [.work (.apply name changes)]) : takenBy m done = [] := by
  unfold takenBy
  split
  · rcases does with haside | ⟨name, changes, hdone⟩
    · cases haside _ List.mem_cons_self
    · cases hdone
  · rfl

namespace Handles

variable {m' : Shared} {done planned rest : List Piece}

theorem plain (h : Handles setup m m' a done planned rest) :
    ∀ p ∈ planned, p.startsTimer = false := by
  cases h with
  | sent _ _ _ plans | numbered _ _ plans | flushed _ _ plans | ranOut _ _ _ _ _ _ plans
  | took _ _ _ _ _ _ plans =>
    rw [plans]
    simp [Piece.startsTimer]
  | scheduled _ _ plans =>
    rw [plans]
    split <;> simp [Piece.startsTimer]
  | set _ _ _ plans | missed _ _ _ _ plans | unscheduled _ _ plans =>
    rw [plans]
    exact List.forall_mem_nil _
  | finished taken _ _ _ plans =>
    intro p hp
    rw [plans, Store.applyEvents] at hp
    obtain ⟨job, hjob, rfl⟩ := List.mem_map.mp hp
    obtain ⟨group, -, rfl⟩ := List.mem_map.mp hjob
    rfl
  | still _ _ plans => exact fun p hp => plain_of_isAside (plans p hp)

theorem queue (h : Handles setup m m' a done planned rest) :
    m.store.batch.queue ++ a.sent = takenBy m done ++ m'.store.batch.queue := by
  cases h with
  | sent event act does _ _ left =>
    rw [act, does, left.batch]
    rfl
  | took taken event queue act waits does _ left =>
    rw [act, does, left.batch, takenBy, waits]
    exact List.append_nil _
  | finished taken act waits does _ left =>
    rw [act, does, left.batch, takenBy, waits]
    rfl
  | scheduled act does _ left | numbered act does _ left | set _ act does _ left
  | flushed act does _ _ left | ranOut _ _ _ _ act does _ _ left | missed _ _ act does _ left
  | unscheduled act does _ _ left =>
    rw [act, does, left.batch]
    exact List.append_nil _
  | still silent does _ batch =>
    have hsent : a.sent = [] := by
      cases a with
      | emit event => exact absurd rfl (silent event)
      | _ => rfl
    rw [hsent, takenBy_eq_nil does, batch]
    exact List.append_nil _

/-- What is taken from the queue is held until it is applied. -/
theorem account (h : Handles setup m m' a done planned rest) (name : String) :
    done.flatMap (·.changesOn name) ++ (takenBy m done).flatMap (·.on name) =
      done.flatMap (·.appliedOn name) ++ planned.flatMap (·.changesOn name) := by
  cases h with
  | sent _ _ does plans | flushed _ does plans | ranOut _ _ _ _ _ does plans
  | missed _ _ _ does plans | numbered _ does plans | set _ _ does plans
  | unscheduled _ does plans =>
    rw [does, plans]
    rfl
  | scheduled _ does plans =>
    rw [does, plans]
    split <;> rfl
  | took taken event queue _ waits does plans =>
    rw [does, plans, takenBy, waits]
    simp [Piece.changesOn, Piece.appliedOn]
  | finished taken _ waits does plans =>
    rw [does, plans, takenBy, waits, List.flatMap_map]
    simpa [Piece.changesOn, Piece.appliedOn] using (Store.changesOn_applyEvents taken).symm
  | still _ does plans =>
    have hplans : planned.flatMap (·.changesOn name) = [] :=
      List.flatMap_eq_nil_iff.mpr fun p hp => (changesOn_of_isAside name (plans p hp)).1
    rw [hplans, takenBy_eq_nil does, List.flatMap_nil, List.append_nil, List.append_nil]
    rcases does with haside | ⟨service, changes, rfl⟩
    · have hdone : done.flatMap (·.changesOn name) = [] :=
        List.flatMap_eq_nil_iff.mpr fun p hp => (changesOn_of_isAside name (haside p hp)).1
      have happlied : done.flatMap (·.appliedOn name) = [] :=
        List.flatMap_eq_nil_iff.mpr fun p hp => (changesOn_of_isAside name (haside p hp)).2
      rw [hdone, happlied]
    · rfl

end Handles

end Shared

namespace Threads

variable {setup : Setup} {threads : Nat} {history : List Step} {w : Threads} {h last : Step}

def sentIn (history : List Step) : List Event := history.flatMap (·.act.sent)

def takenIn (history : List Step) : List Event :=
  history.flatMap fun h => Shared.takenBy h.before.toShared h.done

def emittedOn (name : String) (history : List Step) : List Change :=
  (sentIn history).flatMap (·.on name)

/-- The changes of a service that have been applied after they had arrived as events. -/
def appliedOn (name : String) (history : List Step) : List Change :=
  (history.flatMap Step.done).flatMap (·.appliedOn name)

/-- The changes of a service that have been taken from the queue and are still to be applied. -/
def heldOn (w : Threads) (name : String) : List Change := w.pieces.flatMap (·.changesOn name)

theorem Run.handles_of_plain (run : Run setup threads (history ++ [h]) w)
    (batches : setup.batchInterval ≠ 0)
    (plain : ∀ p ∈ h.before.pieces, p.startsTimer = false) :
    Shared.Handles setup h.before.toShared h.after.toShared h.act h.done h.outcome.planned
      (h.act.rest h.agenda) := by
  obtain ⟨hrun, hoccurs, -⟩ := run.concat
  obtain ⟨hagenda, hact, -⟩ := hoccurs.outcome
  have hmem : h.agenda ∈ h.before.agendas := List.mem_of_getElem? hagenda
  rw [hoccurs.shared]
  exact Shared.handles batches (hrun.inOrder _ hmem)
    (fun p hp => plain p (List.mem_flatten_of_mem hmem hp)) hact

theorem Run.plain (run : Run setup threads history w) (batches : setup.batchInterval ≠ 0) :
    ∀ p ∈ w.pieces, p.startsTimer = false := by
  induction history using List.reverseRecOn generalizing w with
  | nil =>
    obtain rfl := run_nil.mp run
    rw [pieces_replicate]
    exact List.forall_mem_nil _
  | append_singleton history last ih =>
    have hall := run
    obtain ⟨hrun, hoccurs, rfl⟩ := run.concat
    obtain ⟨hbefore, hafter⟩ := hoccurs.pieces
    intro p hp
    rcases List.mem_append.mp (hafter.mem_iff.mp hp) with hplanned | hkept
    · exact (hall.handles_of_plain batches (ih hrun)).plain p hplanned
    · exact ih hrun p (hbefore.mem_iff.mpr (List.mem_append_right _ hkept))

theorem Run.handles (run : Run setup threads (history ++ [h]) w)
    (batches : setup.batchInterval ≠ 0) :
    Shared.Handles setup h.before.toShared h.after.toShared h.act h.done h.outcome.planned
      (h.act.rest h.agenda) :=
  run.handles_of_plain batches (run.concat.1.plain batches)

theorem Run.sentIn_eq (run : Run setup threads history w) (batches : setup.batchInterval ≠ 0) :
    sentIn history = takenIn history ++ w.store.batch.queue := by
  induction history using List.reverseRecOn generalizing w with
  | nil =>
    obtain rfl := run_nil.mp run
    rfl
  | append_singleton history last ih =>
    have hall := run
    obtain ⟨hrun, -, rfl⟩ := run.concat
    rw [sentIn, takenIn, List.flatMap_append, List.flatMap_append, List.flatMap_singleton,
      List.flatMap_singleton, List.append_assoc, ← (hall.handles batches).queue,
      ← List.append_assoc]
    exact congrArg (· ++ _) (ih hrun)

/-- What has been taken for a service has been applied, or some thread holds it. -/
theorem Run.taken_perm (run : Run setup threads history w) (batches : setup.batchInterval ≠ 0)
    (name : String) : ((takenIn history).flatMap (·.on name)).Perm
      (appliedOn name history ++ w.heldOn name) := by
  induction history using List.reverseRecOn generalizing w with
  | nil =>
    obtain rfl := run_nil.mp run
    rw [heldOn, pieces_replicate]
    exact .nil
  | append_singleton history last ih =>
    have hall := run
    obtain ⟨hrun, hoccurs, rfl⟩ := run.concat
    obtain ⟨hbefore, hafter⟩ := hoccurs.pieces
    have hheld := hbefore.flatMap_right (·.changesOn name)
    have hheld' := hafter.flatMap_right (·.changesOn name)
    rw [List.flatMap_append] at hheld hheld'
    have haccount := (hall.handles batches).account name
    rw [takenIn, appliedOn, List.flatMap_append, List.flatMap_append, List.flatMap_append,
      List.flatMap_append, List.flatMap_singleton, List.flatMap_singleton]
    refine (((ih hrun).trans (hheld.append_left _)).append_right _).trans ?_
    refine List.Perm.trans ?_ (hheld'.symm.append_left _)
    simp only [List.append_assoc]
    refine List.Perm.append_left _ ?_
    rw [← List.append_assoc (last.done.flatMap (·.appliedOn name)), ← haccount, List.append_assoc]
    exact List.perm_append_comm.append_left _

/-- What has arrived for a service has been applied, is held by some thread or waits in the
queue. -/
theorem Run.account (run : Run setup threads history w) (batches : setup.batchInterval ≠ 0)
    (name : String) : (emittedOn name history).Perm
      (appliedOn name history ++ (w.heldOn name ++ w.store.batch.queuedOn name)) := by
  rw [emittedOn, run.sentIn_eq batches, List.flatMap_append, ← List.append_assoc]
  exact (run.taken_perm batches name).append_right _

end Threads

end LiveQuery
