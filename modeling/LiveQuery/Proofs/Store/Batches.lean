import LiveQuery.Proofs.Store.Agenda
import LiveQuery.Proofs.Store.Histories

/-!
# Batches lose nothing

An event that arrives waits in the queue until its window is closed, then on the agenda, with the
others of its service, until the service is given it. What has arrived for a service, what has been
applied and what waits make up an account that every act keeps (`Happening.Occurs.flow`),
whatever listeners emit or flush meanwhile. Results of mutations, which are applied at once, are
left out of it.
-/

namespace LiveQuery

def Event.on (event : Event) (name : String) : List Change :=
  if event.service = name then [event.change] else []

/-- The changes of a service that wait for the current window to close. -/
def Batch.queuedOn (b : Batch) (name : String) : List Change := b.queue.flatMap (·.on name)

/-- The changes of a service that a piece of work applies. -/
def Work.changesOn (name : String) : Work → List Change
  | .apply service changes => if service = name then changes else []
  | _ => []

def Turn.changesOn (name : String) : Turn → List Change
  | .work job => job.changesOn name
  | .outside => []

/-- The changes of a service that are to be applied when their turn comes. -/
def World.waitingOn (w : World) (name : String) : List Change :=
  w.agenda.flatMap (·.changesOn name)

def Act.isMutation : Act → Bool
  | .mutated _ _ => true
  | _ => false

def Happening.arrivingOn (h : Happening) (name : String) : List Change :=
  match h.act with
  | .emit event => event.on name
  | _ => []

def emittedOn (name : String) (history : List Happening) : List Change :=
  history.flatMap (·.arrivingOn name)

/-- The changes of a service that a history applies, but for the results of mutations. What is
applied next is such a result if `result` says so. -/
def handedFrom (name : String) : Bool → List Happening → List Change
  | _, [] => []
  | result, h :: history =>
    (if result then [] else h.changes name) ++ handedFrom name h.act.isMutation history

/-- The changes of a service that have arrived as events and have been applied. -/
def handedOn (name : String) (history : List Happening) : List Change :=
  handedFrom name false history

/-- Is the result of a mutation to be applied next? -/
def owesResult (history : List Happening) : Bool := history.getLast?.any (·.act.isMutation)

/-- The changes of a service that have arrived as events and are to be applied when their turn
comes. -/
def World.pendingOn (w : World) (result : Bool) (name : String) : List Change :=
  if result then w.agenda.tail.flatMap (·.changesOn name) else w.waitingOn name

/-- What something that happens does to the changes of a service that have arrived. If `result`
says so, what is applied is the result of a mutation. -/
inductive Happening.Flow (setup : Setup) (h : Happening) (name : String) (result : Bool) : Prop where
  /-- What is applied comes off the agenda, and what arrives joins the queue. -/
  | queued
    (pending : (if result then [] else h.changes name) ++
      h.after.pendingOn h.act.isMutation name = h.before.pendingOn result name)
    (queue : h.after.store.batch.queuedOn name =
      h.before.store.batch.queuedOn name ++ h.arrivingOn name)
  /-- The window is closed, by hand or when nothing else is left to do. -/
  | drained (closes : h.act = .flush ∨ h.before.agenda = []) (unapplied : h.changes name = [])
    (silent : h.arrivingOn name = [])
    (pending : h.after.pendingOn h.act.isMutation name =
      h.before.store.batch.queuedOn name ++ h.before.pendingOn result name)
    (queue : h.after.store.batch.queuedOn name = [])
  /-- What arrives does not wait in the queue. -/
  | atOnce (now : setup.batchInterval = 0) (unapplied : h.changes name = [])
    (pending : h.after.pendingOn h.act.isMutation name =
      h.arrivingOn name ++ h.before.pendingOn result name)
    (queue : h.after.store.batch.queuedOn name = h.before.store.batch.queuedOn name)

variable {setup : Setup} {history : List Happening} {w : World} {h last : Happening}
variable {name : String}

theorem emittedOn_concat : emittedOn name (history ++ [last]) =
    emittedOn name history ++ last.arrivingOn name := by
  rw [emittedOn, List.flatMap_append, List.flatMap_singleton]
  rfl

theorem owesResult_concat : owesResult (history ++ [last]) = last.act.isMutation := by
  rw [owesResult, List.getLast?_concat]
  rfl

theorem handedFrom_concat (result : Bool) : handedFrom name result (history ++ [last]) =
    handedFrom name result history ++
      if (history.getLast?.map (·.act.isMutation)).getD result then []
      else last.changes name := by
  induction history generalizing result with
  | nil => cases result <;> simp [handedFrom]
  | cons h history ih =>
    rw [List.cons_append, handedFrom, handedFrom, ih, List.append_assoc]
    cases hlast : history.getLast? with
    | none => simp [List.getLast?_eq_none_iff.mp hlast]
    | some l => simp [List.getLast?_cons, hlast]

theorem handedOn_concat : handedOn name (history ++ [last]) =
    handedOn name history ++ if owesResult history then [] else last.changes name := by
  rw [handedOn, handedFrom_concat, handedOn, owesResult]
  cases history.getLast? <;> rfl

theorem World.waitingOn_of_rests (rests : w.agenda = []) : w.waitingOn name = [] := by
  rw [waitingOn, rests, List.flatMap_nil]

theorem World.pendingOn_eq_nil (none : w.waitingOn name = []) (result : Bool) :
    w.pendingOn result name = [] := by
  cases result with
  | true => exact List.flatMap_eq_nil_iff.mpr fun turn hturn =>
      List.flatMap_eq_nil_iff.mp none turn (List.mem_of_mem_tail hturn)
  | false => exact none

/-! ## Batches by service -/

theorem Batch.flatMap_addToGroup {groups : List (String × List Change)} {event : Event}
    (distinct : (groups.map Prod.fst).Nodup) :
    (addToGroup groups event).flatMap (fun g => if g.1 = name then g.2 else []) =
      groups.flatMap (fun g => if g.1 = name then g.2 else []) ++ event.on name := by
  induction groups with
  | nil =>
    unfold addToGroup Event.on
    simp
  | cons group groups ih =>
    obtain ⟨service, changes⟩ := group
    rw [List.map_cons, List.nodup_cons] at distinct
    unfold addToGroup
    split
    · next hservice =>
      rw [List.flatMap_cons, List.flatMap_cons, Event.on, ← hservice]
      split
      · next hname =>
        have hnone : groups.flatMap (fun g => if g.1 = name then g.2 else []) = [] := by
          refine List.flatMap_eq_nil_iff.mpr fun g hg => if_neg fun heq => distinct.1 ?_
          rw [hname, ← heq]
          exact List.mem_map_of_mem hg
        rw [hnone, List.append_nil, List.append_nil]
      · rw [List.append_nil]
    · rw [List.flatMap_cons, List.flatMap_cons, ih distinct.2, List.append_assoc]

theorem Batch.mem_services_addToGroup {groups : List (String × List Change)} {event : Event}
    {service : String} : service ∈ (addToGroup groups event).map Prod.fst ↔
      service ∈ groups.map Prod.fst ∨ service = event.service := by
  induction groups with
  | nil => simp [addToGroup]
  | cons group groups ih =>
    unfold addToGroup
    split
    · next hservice =>
      rw [List.map_cons, List.map_cons, ← hservice]
      simp +contextual [or_comm]
    · rw [List.map_cons, List.map_cons, List.mem_cons, List.mem_cons, ih, or_assoc]

theorem Batch.nodup_addToGroup {groups : List (String × List Change)} (event : Event)
    (distinct : (groups.map Prod.fst).Nodup) :
    ((addToGroup groups event).map Prod.fst).Nodup := by
  induction groups with
  | nil => exact List.nodup_singleton _
  | cons group groups ih =>
    rw [List.map_cons, List.nodup_cons] at distinct
    unfold addToGroup
    split
    · exact List.nodup_cons.mpr distinct
    · next hservice =>
      rw [List.map_cons, List.nodup_cons, mem_services_addToGroup]
      constructor
      · rintro (hmem | hsame)
        · exact distinct.1 hmem
        · exact hservice hsame
      · exact ih distinct.2

theorem Store.changesOn_applyEvents (events : List Event) :
    (applyEvents events).flatMap (Work.changesOn name) = events.flatMap (·.on name) := by
  have hall : ∀ groups : List (String × List Change), (groups.map Prod.fst).Nodup →
      (events.foldl Batch.addToGroup groups).flatMap (fun g => if g.1 = name then g.2 else []) =
        groups.flatMap (fun g => if g.1 = name then g.2 else []) ++
          events.flatMap (·.on name) := by
    induction events with
    | nil => simp
    | cons event events ih =>
      intro groups distinct
      rw [List.foldl_cons, ih _ (Batch.nodup_addToGroup event distinct),
        Batch.flatMap_addToGroup distinct, List.flatMap_cons, List.append_assoc]
  rw [applyEvents, List.flatMap_map]
  exact hall [] List.nodup_nil

/-! ## The account of a service -/

namespace World

variable {w' : World} {a : Act} {signal : Option Signal}

/-- The batch after an act. -/
def batchAfter (setup : Setup) (w : World) : Act → Batch
  | .emit event =>
    if setup.batchInterval = 0 then w.store.batch else (w.store.batch.push event).1
  | .flush => w.store.batch.drain.2
  | .timedOut window => (w.store.batch.drainWindow window).2
  | _ => w.store.batch

theorem batch_of_act (h : w.act? setup a = some (w', signal)) :
    w'.store.batch = w.batchAfter setup a := by
  refine (congrArg Reception.batch (reception_of_act h)).trans ?_
  cases a with
  | emit event =>
    unfold receptionAfter batchAfter
    dsimp only
    split <;> rfl
  | goOn =>
    unfold receptionAfter batchAfter
    dsimp only
    split
    · split <;> rfl
    · rfl
  | materialize | subscribe | unsubscribe | refetch | watch | unwatch | flush | mutated
  | answered | timedOut | tick | giveBack => rfl

theorem agenda_of_timedOut {window : Nat}
    (h : w.act? setup (.timedOut window) = some (w', signal)) : w.agenda = [] := by
  simp only [act?] at h
  split at h
  · obtain ⟨hempty, -⟩ := Option.ite_none_right_eq_some.mp h
    exact List.isEmpty_iff.mp hempty
  · cases h

theorem agenda_of_mutated {service : String} {change : Change}
    (h : w.act? setup (.mutated service change) = some (w', signal)) :
    w'.agenda = .work (.apply service [change]) :: w.agenda := by
  obtain ⟨-, h⟩ := Option.ite_none_right_eq_some.mp h
  cases h
  rfl

theorem changesOn_of_not_isErrand (job : Work) (h : job.isErrand = false) :
    (Turn.work job).changesOn name = [] := by
  cases job with
  | call | launch => rfl
  | startTimer | refetch | apply | bind | keepBinding => cases h

theorem waitingOn_of_act (name : String) (h : w.act? setup a = some (w', signal)) :
    w'.waitingOn name = (w.errands setup a).flatMap (Work.changesOn name) ++
      (w.rest a).flatMap (·.changesOn name) :=
  flatMap_agenda rfl changesOn_of_not_isErrand h

theorem changesOn_errands (a : Act) : (w.errands setup a).flatMap (Work.changesOn name) =
    match a with
    | .emit event => if setup.batchInterval = 0 then event.on name else []
    | .flush => w.store.batch.queuedOn name
    | .timedOut window => if window = w.store.batch.window then w.store.batch.queuedOn name else []
    | .mutated service change => if service = name then [change] else []
    | _ => [] := by
  cases a with
  | emit event =>
    unfold errands
    dsimp only
    split
    · exact List.flatMap_singleton ..
    · split <;> rfl
  | flush => exact Store.changesOn_applyEvents _
  | timedOut window =>
    unfold errands
    dsimp only
    split
    · exact Store.changesOn_applyEvents _
    · rfl
  | mutated service change => exact List.flatMap_singleton ..
  | goOn =>
    refine List.flatMap_eq_nil_iff.mpr fun job hjob => ?_
    cases errand_of_mem hjob with
    | apply goOn => exact absurd rfl goOn
    | keepBinding | refetch => rfl
  | materialize ref =>
    unfold errands
    dsimp only
    split <;> rfl
  | subscribe | unsubscribe | refetch | watch | unwatch | answered | tick | giveBack => rfl

end World

namespace Happening.Occurs

theorem changes_append_rest (occurs : h.Occurs setup) (name : String) :
    h.changes name ++ (h.before.rest h.act).flatMap (·.changesOn name) =
      h.before.waitingOn name := by
  have hchanges : h.changes name = (h.before.done h.act).flatMap (Work.changesOn name) := by
    obtain ⟨before, act, signal, after⟩ := h
    rcases World.done_cases before act with ⟨job, others, rfl, hagenda, hdone⟩ | ⟨hdone, hidle⟩
    · rw [hdone, List.flatMap_singleton]
      simp only [changes, hagenda]
      cases job <;> rfl
    · rw [hdone]
      unfold changes
      split
      · next hact hagenda => exact absurd hagenda (hidle _ _ hact)
      · rfl
  have hall : (h.before.done h.act).flatMap (Work.changesOn name) ++
      (h.before.rest h.act).flatMap (·.changesOn name) = h.before.waitingOn name :=
    World.flatMap_done_append_rest (·.changesOn name) rfl occurs.act
  rw [hchanges, hall]

/-- What has arrived for a service waits in the queue until the window is closed, then on the
agenda until it is applied. -/
theorem flow (occurs : h.Occurs setup) (name : String) {result : Bool}
    (first : result = true →
      ∃ service changes rest, h.before.agenda = .work (.apply service changes) :: rest) :
    h.Flow setup name result := by
  have hbatch := World.batch_of_act occurs.act
  have hafter := World.waitingOn_of_act name occurs.act
  rw [World.changesOn_errands] at hafter
  have hbefore := occurs.changes_append_rest name
  cases result with
  | true =>
    obtain ⟨service, changes, rest, hagenda⟩ := first rfl
    have hgoOn : h.act = .goOn := World.eq_goOn_of_work hagenda occurs.act
    refine .queued ?_ ?_
    · rw [hgoOn] at hafter ⊢
      simp only [World.rest, hagenda] at hafter
      simp only [World.pendingOn, hagenda]
      exact hafter
    · rw [hbatch, arrivingOn, hgoOn]
      exact (List.append_nil _).symm
  | false =>
    obtain ⟨before, act, signal, after⟩ := h
    dsimp only at *
    cases act with
    | emit event =>
      dsimp only [World.batchAfter] at hbatch hafter
      by_cases hnow : setup.batchInterval = 0
      · rw [if_pos hnow] at hbatch hafter
        refine .atOnce hnow rfl hafter ?_
        rw [hbatch]
      · rw [if_neg hnow] at hbatch hafter
        refine .queued hafter ?_
        rw [hbatch]
        exact (List.flatMap_append ..).trans (congrArg _ (List.flatMap_singleton ..))
    | flush =>
      refine .drained (Or.inl rfl) rfl rfl hafter ?_
      rw [hbatch]
      rfl
    | timedOut window =>
      dsimp only [World.batchAfter, Batch.drainWindow] at hbatch hafter
      by_cases hcurrent : window = before.store.batch.window
      · rw [if_pos hcurrent] at hbatch hafter
        refine .drained (Or.inr ?_) rfl rfl hafter ?_
        · exact World.agenda_of_timedOut occurs.act
        · rw [hbatch]
          rfl
      · rw [if_neg hcurrent] at hbatch hafter
        refine .queued hafter ?_
        rw [hbatch]
        exact (List.append_nil _).symm
    | mutated service change =>
      refine .queued ?_ ?_
      · show after.agenda.tail.flatMap _ = _
        rw [World.agenda_of_mutated occurs.act]
        rfl
      · rw [hbatch]
        exact (List.append_nil _).symm
    | goOn | materialize | subscribe | unsubscribe | refetch | watch | unwatch | answered | tick
    | giveBack =>
      refine .queued ?_ ?_
      · rw [List.nil_append] at hafter
        rw [← hafter] at hbefore
        exact hbefore
      · rw [hbatch]
        exact (List.append_nil _).symm

end Happening.Occurs

theorem Run.first_of_owesResult (run : Run setup history w) (owes : owesResult history = true) :
    ∃ service changes rest, w.agenda = .work (.apply service changes) :: rest := by
  cases run with
  | start => cases owes
  | @act _ _ _ a _ _ hact =>
    rw [owesResult_concat] at owes
    cases a with
    | mutated service change => exact ⟨_, _, _, World.agenda_of_mutated hact⟩
    | materialize | subscribe | unsubscribe | refetch | watch | unwatch | emit | flush | answered
    | timedOut | tick | goOn | giveBack => cases owes

end LiveQuery
