import LiveQuery.Store.World

/-!
# The store among several threads

A transition of the store is made under a lock, so to other threads it is one step. The rest is not
protected. A listener agrees to a call in one step, by noting its transition, and is called in
another. An event joins the queue, then the window is marked as scheduled, and then the number of
the window is read for its timer. Who drains the queue closes the window, then takes the mark away,
and then takes one event after the other. Between any two of these steps other threads may take
theirs. `Threads.Run` is every history that can come about this way; a `World` is what there is with
one thread, which does all such steps in one go.
-/

namespace LiveQuery

/-- What a thread has left to do, piece by piece. -/
inductive Piece where
  | work (job : Work)
  /-- Ask of the outside what the store has decided on in a piece of work. -/
  | ask (job : Work) (signal : Signal)
  /-- See that the window in which an event waits has a timer. -/
  | schedule
  /-- Read the number of the window that a timer is to be started for. -/
  | number
  | setTimer (window : Nat)
  /-- Take away the mark of a window that has been closed. -/
  | unschedule
  /-- Take what waits, after the events that have been taken. -/
  | take (taken : List Event)
  | outside

/-- What the threads share. -/
structure Shared where
  store : Store := {}
  clock : Nat := 0
  requests : List Request := []
  timers : List (Nat × Nat) := []

/-- What comes of a step. -/
structure Outcome where
  shared : Shared
  /-- What the thread has to do next. -/
  planned : List Piece := []
  signal : Option Signal := none

structure Threads extends Shared where
  agendas : List (List Piece) := []

namespace Shared

def withBatch (m : Shared) (batch : Batch) : Shared := { m with store := { m.store with batch } }

def make (m : Shared) (transition : Store × List Work) : Outcome where
  shared := { m with store := transition.1 }
  planned := transition.2.map .work

def close (m : Shared) : Outcome where
  shared := m.withBatch m.store.batch.close
  planned := [.unschedule, .take []]

/-- Ask something of the outside. A called listener and a backend that is asked to deliver events
have control of the thread until they give it back. -/
def ask (m : Shared) : Signal → Outcome
  | .call l payload => { shared := m, planned := [.outside], signal := some (.call l payload) }
  | .bind name => { shared := m, planned := [.outside], signal := some (.bind name) }
  | .fetch request =>
    { shared := { m with requests := m.requests ++ [request] }, signal := some (.fetch request) }
  | .timer window deadline =>
    { shared := { m with timers := m.timers ++ [(window, deadline)] }
      signal := some (.timer window deadline) }
  | .unbind name => { shared := m, signal := some (.unbind name) }

def perform (setup : Setup) (m : Shared) : Piece → Outcome
  | .work job =>
    let (store, more, signal) := m.store.run setup job
    { shared := { m with store }, planned := (signal.map (.ask job)).toList ++ more.map .work }
  | .ask _ signal => m.ask signal
  | .schedule =>
    { shared := m.withBatch m.store.batch.schedule
      planned := if m.store.batch.scheduled then [] else [.number] }
  | .number => { shared := m, planned := [.setTimer m.store.batch.window] }
  | .setTimer window => m.ask (.timer window (m.clock + setup.batchInterval))
  | .unschedule => { shared := m.withBatch m.store.batch.unschedule }
  | .take taken =>
    match m.store.batch.queue with
    | [] => { shared := m, planned := (Store.applyEvents taken).map .work }
    -- one event for each step, so that others may come in between
    | event :: queue =>
      { shared := m.withBatch { m.store.batch with queue }
        planned := [.take (taken ++ [event])] }
  | .outside => { shared := m }

/-- Has the outside control of a thread? -/
def isOpen : List Piece → Bool
  | [] => true
  | .outside :: _ => true
  | _ :: _ => false

/-- What comes of an act on a thread that has the given pieces left to do; nothing if the act cannot
happen now. -/
def act? (setup : Setup) (m : Shared) (agenda : List Piece) : Act → Option Outcome
  | .materialize ref =>
    if isOpen agenda then some (m.make (m.store.materialize setup ref)) else none
  | .subscribe query =>
    if isOpen agenda then some (m.make (m.store.subscribe query).2) else none
  | .unsubscribe query listener vacuum =>
    if isOpen agenda ∧ m.store.listeners.contains (query, listener) then
      some (m.make (m.store.unsubscribe setup query listener vacuum))
    else none
  | .refetch query => if isOpen agenda then some (m.make (m.store.refetch query)) else none
  | .watch => if isOpen agenda then some (m.make (m.store.watch.2, [])) else none
  | .unwatch listener =>
    if isOpen agenda then some (m.make (m.store.unwatch listener, [])) else none
  | .emit event =>
    if isOpen agenda then
      if setup.batchInterval = 0 then
        some (m.make (m.store.apply setup event.service [event.change]))
      else
        some { shared := m.withBatch (m.store.batch.send event), planned := [.schedule] }
    else none
  | .flush => if isOpen agenda then some m.close else none
  | .mutated service change =>
    if isOpen agenda then some (m.make (m.store.apply setup service [change])) else none
  | .answered query epoch answer =>
    match m.requests.find? (·.isFor query epoch) with
    | some request =>
      if agenda.isEmpty ∧ request.fits answer then
        let m := { m with requests := m.requests.eraseP (·.isFor query epoch) }
        some (m.make (m.store.complete setup request answer))
      else none
    | none => none
  | .timedOut window =>
    match m.timers.find? fun t => t.1 = window ∧ t.2 ≤ m.clock with
    | some timer =>
      if agenda.isEmpty then
        let m := { m with timers := m.timers.erase timer }
        -- a timer of an earlier window does nothing more
        some (if window = m.store.batch.window then m.close else { shared := m })
      else none
    | none => none
  | .tick milliseconds => some { shared := { m with clock := m.clock + milliseconds } }
  | .goOn =>
    match agenda with
    | [] => none
    | .outside :: _ => none
    | piece :: _ => some (m.perform setup piece)
  | .giveBack =>
    match agenda with
    | .outside :: _ => some { shared := m }
    | _ => none

end Shared

def Act.rest : Act → List Piece → List Piece
  | .goOn, agenda => agenda.tail
  | .giveBack, agenda => agenda.tail
  | _, agenda => agenda

namespace Threads

/-- The threads after an act of one of them, and what comes of it. -/
def act? (setup : Setup) (w : Threads) (thread : Nat) (a : Act) : Option (Threads × Outcome) := do
  let agenda ← w.agendas[thread]?
  let outcome ← w.toShared.act? setup agenda a
  some (⟨outcome.shared, w.agendas.set thread (outcome.planned ++ a.rest agenda)⟩, outcome)

/-- One step that a thread has taken. -/
structure Step where
  before : Threads
  thread : Nat
  act : Act
  outcome : Outcome
  after : Threads

/-- The histories of a store among so many threads, from the first step on, and where they lead. -/
inductive Run (setup : Setup) (threads : Nat) : List Step → Threads → Prop where
  | start : Run setup threads [] { agendas := List.replicate threads [] }
  | act {history : List Step} {w w' : Threads} {thread : Nat} {a : Act} {outcome : Outcome} :
      Run setup threads history w → w.act? setup thread a = some (w', outcome) →
      Run setup threads (history ++ [⟨w, thread, a, outcome, w'⟩]) w'

end Threads

end LiveQuery
